import BorrowChecker.Proofs.Outcome

/-!
# Aliasing or mutation

Whether a usable place can be accessed is settled by what its declaration permits, by the facts of its value and by the
loans on the storage that it names. Reading goes along with shared loans, and everything else needs storage that is not
lent at all. The session does not apply this rule (`Operation.Permitted`) as it stands: it subtracts what the loans
suspend from what is declared, and a move looks for loans once more. It comes to the same (`accepted_iff_permitted`).
-/

namespace BorrowChecker

namespace Operation

/-- The place whose value the operation reads, writes or takes away. -/
def accessed? : Operation → Option Place
  | .access p _ | .mutate p | .move p | .copy p | .drop p => some p
  | _ => none

/-- The rule for an access to a usable place, from what is declared of it, the facts of its value, and the loans on the
storage that it names. -/
def Permitted (declared : PermSet) (facts : TypeFacts) (lent : List Loan) : Operation → Prop
  | .access _ needs =>
      needs ⊆ declared ∧ (.read ⊆ needs → ∀ loan ∈ lent, loan.kind ≠ .exclusive) ∧
        (.write ⊆ needs ∨ .own ⊆ needs → lent = [])
  | .mutate _ => .write ⊆ declared ∧ lent = []
  | .move _ => (if facts.owning then .own else .read) ⊆ declared ∧ lent = []
  | .copy _ =>
      if facts.duplicable then .read ⊆ declared ∧ ∀ loan ∈ lent, loan.kind ≠ .exclusive
      else (if facts.owning then .own else .read) ⊆ declared ∧ lent = []
  | .drop _ => facts.owning = true ∧ .own ⊆ declared ∧ lent = []
  | _ => False

end Operation

theorem BorrowKind.eq_shared_iff {kind : BorrowKind} : kind = .shared ↔ kind ≠ .exclusive := by
  cases kind <;> simp

namespace Session

variable {s : Session} {p : Place} {declared : PermSet}

/-! ## The rules, one by one -/

section Usable

variable (hlive : s.checkLive p = .ok ()) (hdeclared : s.store.declared p = .ok declared)

include hlive hdeclared

theorem checkAccess_iff_permitted {needs : PermSet} :
    s.checkAccess p needs = .ok () ↔
      (Operation.access p needs).Permitted declared (s.factsOf p) (s.ledger.overlapping p) := by
  simp [checkAccess_eq_ok_iff_lent, hlive, hdeclared, Operation.Permitted, BorrowKind.eq_shared_iff]

theorem checkAccess_read_iff :
    s.checkAccess p .read = .ok () ↔ .read ⊆ declared ∧ ∀ loan ∈ s.ledger.overlapping p, loan.kind ≠ .exclusive := by
  have hread : ¬ (PermSet.write ⊆ .read ∨ PermSet.own ⊆ .read) := by decide
  have hrefl : PermSet.read ⊆ .read := by decide
  rw [checkAccess_iff_permitted hlive hdeclared, Operation.Permitted]
  simp only [hread, hrefl, true_imp_iff, false_imp_iff, and_true]

theorem checkAccess_alone_iff {needs : PermSet} (halone : .write ⊆ needs ∨ .own ⊆ needs) :
    s.checkAccess p needs = .ok () ↔ needs ⊆ declared ∧ s.ledger.overlapping p = [] := by
  rw [checkAccess_iff_permitted hlive hdeclared, Operation.Permitted]
  refine and_congr_right fun _ => ⟨fun h => h.2 halone, fun hunlent => ⟨fun _ loan hloan => ?_, fun _ => hunlent⟩⟩
  rw [hunlent] at hloan
  exact absurd hloan List.not_mem_nil

theorem checkMove_iff_permitted :
    s.checkMove p = .ok () ↔
      (Operation.move p).Permitted declared (s.factsOf p) (s.ledger.overlapping p) := by
  rw [checkMove_eq_ok_iff, Operation.Permitted]
  refine and_congr_left fun hunlent => ?_
  simp [checkAccess_iff_permitted hlive hdeclared, Operation.Permitted, hunlent]

/-- The operation is let through exactly if it is permitted. -/
theorem apply_iff_permitted {op : Operation} (hop : op.accessed? = some p) :
    (s.apply op).1 = none ↔ op.Permitted declared (s.factsOf p) (s.ledger.overlapping p) := by
  cases op with
  | access p needs =>
    cases hop
    rw [apply, guarded_unit_eq_none_iff]
    exact checkAccess_iff_permitted hlive hdeclared
  | mutate p =>
    cases hop
    rw [apply, guarded_unit_eq_none_iff]
    exact checkAccess_alone_iff hlive hdeclared (Or.inl (by decide))
  | move p =>
    cases hop
    rw [apply, guarded_unit_eq_none_iff]
    exact checkMove_iff_permitted hlive hdeclared
  | copy p =>
    cases hop
    have hmove := checkMove_iff_permitted hlive hdeclared
    rw [Operation.Permitted] at hmove
    rw [apply, guarded_eq_none_iff, Operation.Permitted, ← hmove, ← checkAccess_read_iff hlive hdeclared]
    simp only [checkCopy_eq_ok_iff]
    cases (s.factsOf p).duplicable <;> simp
  | drop p =>
    cases hop
    rw [apply, guarded_unit_eq_none_iff, checkDrop_eq_ok_iff, Operation.Permitted,
      checkAccess_alone_iff hlive hdeclared (Or.inr (by decide))]
    exact and_iff_right (checkLive_eq_ok_iff.mp hlive).1
  | _ => exact absurd hop (by simp [Operation.accessed?])

end Usable

/-- Only a usable place can be accessed. -/
theorem checkLive_of_accessed {op : Operation} (hop : op.accessed? = some p) (hnone : (s.apply op).1 = none) :
    s.checkLive p = .ok () := by
  have haccess : ∀ needs, s.checkAccess p needs = .ok () → s.checkLive p = .ok () := fun needs h =>
    (checkAccess_eq_ok_iff.mp h).1
  cases op with
  | access p needs =>
    cases hop
    exact haccess needs (guarded_unit_eq_none_iff.mp hnone)
  | mutate p =>
    cases hop
    exact haccess .write (guarded_unit_eq_none_iff.mp hnone)
  | move p =>
    cases hop
    exact haccess _ (checkMove_eq_ok_iff.mp (guarded_unit_eq_none_iff.mp hnone)).1
  | copy p =>
    cases hop
    obtain ⟨moves, hcheck⟩ := guarded_eq_none_iff.mp hnone
    rcases checkCopy_eq_ok_iff.mp hcheck with ⟨-, -, hread⟩ | ⟨-, -, hmove⟩
    · exact haccess .read hread
    · exact haccess _ (checkMove_eq_ok_iff.mp hmove).1
  | drop p =>
    cases hop
    exact haccess .own (checkDrop_eq_ok_iff.mp (guarded_unit_eq_none_iff.mp hnone)).2.2
  | _ => exact absurd hop (by simp [Operation.accessed?])

/-! ## Steps -/

/-- **Aliasing or mutation.** Of a usable place it is known what is declared, and an access to it is accepted exactly if
it is permitted under the loans that have not run out. No access to another place is accepted. -/
theorem accepted_iff_permitted (hrun : s.stopped = false) (p : Place) :
    (s.isLive p = true → ∃ declared, s.store.declared p = .ok declared ∧
      ∀ op : Operation, op.accessed? = some p →
        ((s.step op).1 = .ok ↔ op.Permitted declared (s.factsOf p) (s.refreshed.ledger.overlapping p))) ∧
    (s.isLive p = false → ∀ op : Operation, op.accessed? = some p → (s.step op).1 ≠ .ok) := by
  -- that loans run out does not change the variables
  have hrefreshed : s.isLive p = true ↔ s.refreshed.checkLive p = .ok () := isLive_iff
  refine ⟨fun husable => ?_, fun hdead op hop hok => ?_⟩
  · have hlive := hrefreshed.mp husable
    obtain ⟨declared, hdeclared⟩ := Store.declared_of_live (checkLive_eq_ok_iff.mp hlive).2
    refine ⟨declared, hdeclared, fun op hop => ?_⟩
    rw [step_ok_iff hrun]
    exact apply_iff_permitted hlive hdeclared hop
  · rw [step_ok_iff hrun] at hok
    exact Bool.eq_false_iff.mp hdead (hrefreshed.mpr (checkLive_of_accessed hop hok))

/-- While a shared loan is left on a variable it can be read and not written, and a variable that was never declared
cannot be dropped. -/
theorem shared_loan_leaves_reading :
    let s := (({} : Session).stepAll [.bindFreshMut (.var ⟨0⟩),
      .borrowShared ⟨⟨0⟩, [.field ⟨1⟩]⟩ (.var ⟨2⟩) (.scope .root)]).2
    s.stopped = false ∧ s.isLive (.var ⟨0⟩) = true ∧ s.isLive (.var ⟨3⟩) = false ∧
    (s.step (.read (.var ⟨0⟩))).1 = .ok ∧ (s.step (.mutate (.var ⟨0⟩))).1 ≠ .ok ∧
    (s.step (.drop (.var ⟨3⟩))).1 ≠ .ok := by
  intro s
  have hrun : s.stopped = false := by decide
  have hlive : s.isLive (.var ⟨0⟩) = true := by decide
  have hdead : s.isLive (.var ⟨3⟩) = false := by decide
  have hlent : s.refreshed.ledger.overlapping (.var ⟨0⟩) =
      [⟨⟨⟨⟨0⟩, [.field ⟨1⟩]⟩, .shared, .var ⟨2⟩, .scope .root, lastIndex, 1⟩, ⟨0⟩⟩] := by decide
  obtain ⟨declared, hdeclared, haccess⟩ := (accepted_iff_permitted hrun (.var ⟨0⟩)).1 hlive
  obtain rfl : declared = .all := Except.ok.inj (hdeclared.symm.trans (by decide))
  rw [hlent] at haccess
  refine ⟨hrun, hlive, hdead, (haccess _ rfl).mpr ⟨by decide, by simp, by decide⟩, fun hok => ?_,
    (accepted_iff_permitted hrun (.var ⟨3⟩)).2 hdead _ rfl⟩
  exact absurd ((haccess (.mutate (.var ⟨0⟩)) rfl).mp hok).2 (by simp)

end Session

end BorrowChecker
