import BorrowChecker.Proofs.Release

/-!
# Bulk releases

A ledger gives up all loans of a kind at once: the spans that are over, the loans tied to a scope, or the loans held in a
place. A sweep tests the loans from the last to the first and takes out those that pass. This parts the ledger into the
loans of the kind and the others (`Parted`) as soon as the test tells the two apart (`parted_releaseWhere`). The loans
held in a place are picked by their numbers, so there it takes different numbers for different loans. Every ledger that
calls build has them (`disciplined_built`), and a history gives out no more numbers than it asks for loans.
-/

namespace BorrowChecker

namespace Ledger

variable {ledger : Ledger}

/-! ## Ledgers that calls build -/

/-- The ledger after a call. A borrow that is refused leaves it as it is. -/
def called (ledger : Ledger) (c : Call) : Ledger := (ledger.call c).getD ledger

/-- The ledger that a history of calls builds. -/
def built (calls : List Call) : Ledger := calls.foldl called {}

/-- Whether the call asks for a loan. -/
def Call.isBorrow : Call → Bool
  | .borrow _ _ => true
  | _ => false

theorem Disciplined.called (h : ledger.Disciplined) (c : Call) : (ledger.called c).Disciplined := by
  rw [Ledger.called]
  cases hcall : ledger.call c with
  | none => exact h
  | some next => exact h.call hcall

/-- Only a borrow uses up a number. -/
theorem nextId_called_le (ledger : Ledger) (c : Call) :
    (ledger.called c).nextId ≤ ledger.nextId + if c.isBorrow then 1 else 0 := by
  cases c with
  | borrow request nesting =>
    rw [called]
    cases hcall : ledger.call (.borrow request nesting) with
    | none => exact Nat.le_succ _
    | some next =>
      obtain ⟨-, -, rfl⟩ := call_borrow_eq_some_iff.mp hcall
      exact Nat.le_refl _
  | _ => exact Nat.le_refl _

theorem Disciplined.foldl_called (h : ledger.Disciplined) (calls : List Call) :
    (calls.foldl Ledger.called ledger).Disciplined := by
  induction calls generalizing ledger with
  | nil => exact h
  | cons c calls ih => exact ih (h.called c)

theorem nextId_foldl_called_le (ledger : Ledger) (calls : List Call) :
    (calls.foldl called ledger).nextId ≤ ledger.nextId + calls.countP Call.isBorrow := by
  induction calls generalizing ledger with
  | nil => exact Nat.le_refl _
  | cons c calls ih =>
    have hfirst := nextId_called_le ledger c
    have hrest := ih (ledger.called c)
    rw [List.foldl_cons, List.countP_cons]
    omega

theorem disciplined_built (calls : List Call) : (built calls).Disciplined := disciplined_empty.foldl_called calls

theorem nextId_built_le (calls : List Call) : (built calls).nextId ≤ calls.countP Call.isBorrow := by
  have hle := nextId_foldl_called_le {} calls
  rwa [Nat.zero_add] at hle

/-! ## Parting a ledger -/

/-- The ledger is parted into the loans of a kind, which are given out, the latest first, and the others, which stay in
their order. The loans are gone through with a test. -/
structure Parted (ledger : Ledger) (test : Loan → Bool) (kind : Loan → Prop) [DecidablePred kind]
    (result : List Loan × Ledger) : Prop where
  /-- The sweep comes to its end, and no index lies outside the list. -/
  swept : sweep test ledger.loans.length ledger.loans [] = some (result.1, result.2.loans)
  released : result.1 = (ledger.loans.filter (kind ·)).reverse
  kept : result.2 = { ledger with loans := ledger.loans.filter (¬ kind ·) }
  /-- No loan is lost and none is doubled. -/
  complete : (result.1 ++ result.2.loans).Perm ledger.loans

theorem parted_releaseWhere {test : Loan → Bool} {kind : Loan → Prop} [DecidablePred kind]
    (h : ∀ loan ∈ ledger.loans, test loan = true ↔ kind loan) : ledger.Parted test kind (ledger.releaseWhere test) := by
  have hpicked : ∀ loan ∈ ledger.loans, test loan = decide (kind loan) := by
    intro loan hloan
    rw [Bool.eq_iff_iff, h loan hloan, decide_eq_true_iff]
  have hspared : ∀ loan ∈ ledger.loans, (!test loan) = decide (¬ kind loan) := by
    intro loan hloan
    rw [hpicked loan hloan, decide_not]
  rw [releaseWhere_eq]
  refine ⟨sweep_length _ _, ?_, ?_, ?_⟩
  · rw [List.filter_congr hpicked]
  · rw [List.filter_congr hspared]
  · exact ((List.reverse_perm _).append_right _).trans (List.filter_append_perm _ _)

theorem expired_iff {now : Nat} {loan : Loan} :
    expired now loan = true ↔ loan.region.scope? = none ∧ loan.stop < now := by
  rw [expired]
  cases loan.region with
  | span start stop => simp [Region.scope?]
  | scope id => simp [Region.scope?]

/-- **Bulk releases part the ledger.** If the loans of a ledger have different numbers, then at every index, for every
scope and for every holder, the sweep goes through the whole ledger with no index outside it, gives out exactly the loans
that are over, tied to the scope or held in the place, the latest first, and leaves exactly the others, in their order and
unchanged. In a ledger that calls have built the loans have different numbers and stand in the order in which they were
made. No more numbers are given out than loans were asked for, so they fit into 32 bits if these are fewer than
`2 ^ 32`. -/
theorem bulk_release_partitions :
    (∀ ledger : Ledger, (ledger.loans.map (·.id)).Nodup → ∀ (now : Nat) (scope : ScopeId) (holder : Place),
      ledger.Parted (expired now) (fun loan => loan.region.scope? = none ∧ loan.stop < now) (ledger.expire now) ∧
      ledger.Parted (·.region == .scope scope) (·.region = .scope scope) (ledger.releaseScope scope) ∧
      ledger.Parted ((ledger.heldIds holder).contains ·.id) (holder.isPrefixOf ·.holder = true)
        (ledger.releaseHeldBy holder)) ∧
    ∀ calls : List Call, ((built calls).loans.map (·.id)).Nodup ∧
      (built calls).loans.Pairwise (·.id.number < ·.id.number) ∧
      (built calls).nextId ≤ calls.countP Call.isBorrow := by
  refine ⟨fun ledger hids now scope holder => ⟨?_, ?_, ?_⟩, fun calls => ⟨?_, ?_, nextId_built_le calls⟩⟩
  · exact parted_releaseWhere fun loan _ => expired_iff
  · exact parted_releaseWhere fun loan _ => beq_iff_eq
  · refine parted_releaseWhere fun loan hloan => ?_
    rw [contains_heldIds hids holder hloan]
  · exact (disciplined_built calls).nodup_ids
  · exact (disciplined_built calls).ordered

/-- Five loans and one that was refused. Those that each bulk release takes out stand among others, and one of them has
changed hands. -/
theorem interleaved_loans_parted :
    let calls : List Call :=
      [.borrow ⟨.var ⟨0⟩, .shared, .var ⟨10⟩, .span 0 3, 3, 0⟩ .strict,
        .borrow ⟨.var ⟨1⟩, .exclusive, ⟨⟨11⟩, [.field ⟨5⟩]⟩, .scope ⟨1⟩, 9, 1⟩ .strict,
        .borrow ⟨.var ⟨0⟩, .shared, .var ⟨12⟩, .span 2 2, 2, 2⟩ .strict,
        .borrow ⟨.var ⟨1⟩, .shared, .var ⟨13⟩, .span 3 3, 3, 3⟩ .strict,
        .borrow ⟨.var ⟨2⟩, .exclusive, .var ⟨14⟩, .scope ⟨1⟩, 9, 4⟩ .strict,
        .borrow ⟨.var ⟨3⟩, .shared, ⟨⟨11⟩, [.deref]⟩, .span 5 8, 8, 5⟩ .strict,
        .transfer (.var ⟨12⟩) (.var ⟨11⟩)]
    let ledger := built calls
    let numbers := fun result : List Loan × Ledger =>
      (result.1.map (·.id.number), result.2.loans.map (·.id.number))
    ledger.loans.map (·.id.number) = [0, 1, 2, 3, 4] ∧ (ledger.loans.map (·.id)).Nodup ∧
    ledger.nextId ≤ calls.countP Call.isBorrow ∧
    numbers (ledger.expire 4) = ([2, 0], [1, 3, 4]) ∧ numbers (ledger.releaseScope ⟨1⟩) = ([3, 1], [0, 2, 4]) ∧
    numbers (ledger.releaseHeldBy (.var ⟨11⟩)) = ([4, 2, 1], [0, 3]) := by
  intro calls ledger numbers
  obtain ⟨hparted, hbuilt⟩ := bulk_release_partitions
  obtain ⟨hids, -, hnumbers⟩ := hbuilt calls
  obtain ⟨hexpire, hscope, hheld⟩ := hparted ledger hids 4 ⟨1⟩ (.var ⟨11⟩)
  refine ⟨by decide, hids, hnumbers, ?_, ?_, ?_⟩
  · simp only [numbers, hexpire.released, hexpire.kept]
    decide
  · simp only [numbers, hscope.released, hscope.kept]
    decide
  · simp only [numbers, hheld.released, hheld.kept]
    decide

/-- If two loans had the same number, the one that is held elsewhere would go with the other. -/
example :
    let held : Loan := ⟨⟨.var ⟨0⟩, .shared, .var ⟨10⟩, .scope .root, lastIndex, 0⟩, ⟨0⟩⟩
    let other : Loan := { held with holder := .var ⟨11⟩ }
    ((⟨[held, other], 1⟩ : Ledger).releaseHeldBy (.var ⟨10⟩)).1 = [other, held] := by
  decide

end Ledger

end BorrowChecker
