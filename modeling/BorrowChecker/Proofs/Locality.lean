import BorrowChecker.Proofs.Blame
import BorrowChecker.Proofs.Parts
import BorrowChecker.Proofs.Reborrow
import BorrowChecker.Proofs.Windows

/-!
# Operations keep to the variables they mention

A variable notices an operation that does not mention it only through its loans. The holders of its loans may be mentioned,
and a loan whose holder is vacated or released ends; a loan may also run out before the operation. What the variable is
declared to be, which parts of it are in being and how its arrays are split is left alone, so its places permit what they
did before, and more only where a loan has gone (`step_local_to_mentioned`). The one operation that acts on variables which
it does not mention is the closing of a scope.
-/

namespace BorrowChecker

/-- The place that an initial value comes from. -/
def Init.source? : Init → Option Place
  | .fresh => none
  | .move source | .copy source => some source

/-- The places that an operation mentions. -/
def Operation.mentioned : Operation → List Place
  | .scopeBegin _ | .scopeEnd _ => []
  | .bind target init _ _ _ => target :: init.source?.toList
  | .borrow source _ holder _ => [source, holder]
  | .project p _ | .move p | .copy p | .mutate p | .access p _ | .drop p | .release p | .unchecked p => [p]
  | .split array _ => [array]

/-! ## Windows of one variable -/

theorem Place.root_of_mem_windows {p : Place} {w : Place.Window} (h : w ∈ p.windows) : w.array.root = p.root := by
  obtain ⟨⟨e, n⟩, -, hw⟩ := List.mem_filterMap.mp h
  cases e with
  | subslice lo hi =>
    cases hw
    rfl
  | _ => exact absurd hw (by simp)

theorem Splits.has_insert_of_ne {splits : Splits} {split : Split} {w : Place.Window} (h : split.array ≠ w.array) :
    (splits.insert split).has w = splits.has w := by
  rw [insert]
  split
  · rfl
  · simp [has, List.any_append, h]

namespace Session

variable {config : Config} {s t : Session} {op : Operation} {q : Place}

/-- The variable of `q` is as it was, and so are the windows on the way to `q`. A loan is one from before, maybe with
another holder, or a new one that lends another variable. -/
structure Spares (q : Place) (s t : Session) : Prop where
  store : Store.Agree q.root s.store t.store
  windows : q.windows.all t.splits.has = q.windows.all s.splits.has
  loans : ∀ loan ∈ t.ledger.loans,
    (∃ old ∈ s.ledger.loans, loan = { old with holder := loan.holder }) ∨
    (loan.source.root ≠ q.root ∧ s.ledger.nextId ≤ loan.id.number)

namespace Spares

theorem live (h : Spares q s t) : t.store.Live q ↔ s.store.Live q := by
  rw [Store.Live, Store.Live, h.store.checkLive]

theorem isLive (h : Spares q s t) : t.isLive q = s.isLive q := by
  rw [Bool.eq_iff_iff, isLive_iff_windows, isLive_iff_windows, h.windows, h.live]

/-- Every loan on the place is one from before. -/
theorem overlapping (h : Spares q s t) {loan : Loan} (hloan : loan ∈ t.ledger.overlapping q) :
    ∃ old ∈ s.ledger.overlapping q, loan = { old with holder := loan.holder } := by
  obtain ⟨hmem, hoverlap⟩ := Ledger.mem_overlapping.mp hloan
  rcases h.loans loan hmem with ⟨old, hold, hsame⟩ | ⟨hother, -⟩
  · rw [hsame] at hoverlap
    exact ⟨old, Ledger.mem_overlapping.mpr ⟨hold, hoverlap⟩, hsame⟩
  · exact absurd (Place.root_of_overlaps hoverlap) hother

theorem unsuspended (h : Spares q s t) {needs : PermSet} (hneeds : needs ∩ s.ledger.suspended q = ∅) :
    needs ∩ t.ledger.suspended q = ∅ := by
  refine Ledger.unsuspended_of_overlapping (fun loan hloan => ?_) hneeds
  obtain ⟨old, hold, hsame⟩ := h.overlapping hloan
  exact ⟨old, hold, by rw [hsame]⟩

/-- A permission that is suspended before and not after was taken by a loan that has gone. -/
theorem released (h : Spares q s t) (hledger : s.ledger.Disciplined) {perm : PermSet} (hperm : perm.IsSingle)
    (hbefore : ¬ perm ∩ s.ledger.suspended q = ∅) (hafter : perm ∩ t.ledger.suspended q = ∅) :
    ∃ loan ∈ s.ledger.loans, loan.Takes perm q ∧ ¬ t.ledger.Lives loan.id := by
  rw [Ledger.inter_suspended_eq_empty_iff] at hbefore hafter
  simp only [not_forall] at hbefore
  obtain ⟨loan, hloan, htakes⟩ := hbefore
  obtain ⟨hmem, hoverlap⟩ := Ledger.mem_overlapping.mp hloan
  have hsuspends : perm ⊆ loan.kind.suspends := by
    rw [PermSet.inter_comm, hperm.inter_eq_empty_iff, not_not] at htakes
    exact htakes
  refine ⟨loan, hmem, ⟨hoverlap, hsuspends⟩, fun hlives => ?_⟩
  obtain ⟨left, hleft, hid⟩ := Ledger.lives_iff.mp hlives
  rcases h.loans left hleft with ⟨old, hold, hsame⟩ | ⟨-, hnew⟩
  · -- numbers are given once, so the loan would still suspend the permission
    have hold' : old = loan := by
      rw [hsame] at hid
      exact hledger.eq_of_id_eq hold hmem hid
    subst hold'
    have hstill := hafter left (Ledger.mem_overlapping.mpr ⟨hleft, by rw [hsame]; exact hoverlap⟩)
    rw [hsame] at hstill
    exact htakes hstill
  · rw [hid] at hnew
    exact absurd (hledger.bounded loan hmem) (Nat.not_lt.mpr hnew)

/-- What was permitted is permitted still, and more only where a loan has gone. -/
theorem permissions? (h : Spares q s t) (hledger : s.ledger.Disciplined) {before : PermSet}
    (hbefore : s.permissions? q = some before) :
    ∃ after, t.permissions? q = some after ∧ before ⊆ after ∧
      ∀ perm : PermSet, perm.IsSingle → perm ⊆ after → ¬ perm ⊆ before →
        ∃ loan ∈ s.ledger.loans, loan.Takes perm q ∧ ¬ t.ledger.Lives loan.id := by
  have hlive : t.store.Live q ↔ s.store.Live q := h.live
  simp only [permissions?_eq_some_iff, Store.permissions_eq_ok_iff, hlive, h.store.declared, h.store.find] at hbefore ⊢
  rcases hbefore with ⟨halive, declared, hdeclared, rfl⟩ | ⟨hdead, hknown, rfl⟩
  · refine ⟨declared \ t.ledger.suspended q, Or.inl ⟨halive, declared, hdeclared, rfl⟩, ?_, ?_⟩
    · exact PermSet.subset_sdiff_iff.mpr
        ⟨PermSet.sdiff_subset _ _, h.unsuspended (PermSet.sdiff_inter_self declared _)⟩
    · intro perm hperm hafter hmissing
      obtain ⟨hgranted, hfree⟩ := PermSet.subset_sdiff_iff.mp hafter
      exact h.released hledger hperm (fun hsame => hmissing (PermSet.subset_sdiff_iff.mpr ⟨hgranted, hsame⟩)) hfree
  · exact ⟨∅, Or.inr ⟨hdead, hknown, rfl⟩, PermSet.subset_refl ∅, fun perm _ hafter hmissing => absurd hafter hmissing⟩

end Spares

/-! ## One operation at a time -/

theorem agree_guarded {α : Type} {check : Except Fault α} {change : α → Registry}
    (h : ∀ a, Store.Agree q.root s.store (change a).store) :
    Store.Agree q.root s.store (s.guarded check change).2.store := by
  rcases s.guarded_cases check change with ⟨fault, -, hguarded⟩ | ⟨a, -, hguarded⟩
  · rw [hguarded]
    exact Store.Agree.refl _ _
  · rw [hguarded]
    exact h a

theorem agree_bind {target : Place} {init : Init} {mutable : Bool} {perms : PermSet} {facts : TypeFacts}
    (hq : ∀ p ∈ (Operation.bind target init mutable perms facts).mentioned, q.root ≠ p.root) :
    Store.Agree q.root s.store (s.bind target init mutable perms facts).2.store := by
  have htarget : q.root ≠ target.root := hq target List.mem_cons_self
  cases hfault : (s.bind target init mutable perms facts).1 with
  | some fault =>
    refine (bind_refused hfault).agree fun d hd => ?_
    cases hd
    exact htarget
  | none =>
    obtain ⟨source, store, hinit, hdeclare, hbind⟩ := bind_accepted hfault
    have hdeclared : Store.Agree q.root s.store store := Store.agree_of_declare hdeclare htarget
    rw [hbind]
    cases source with
    | none => exact hdeclared
    | some p =>
      have hp : p ∈ init.source?.toList := by
        rcases checkInit_eq_ok_some_iff.mp hinit with ⟨rfl, -⟩ | ⟨rfl, -⟩
        · exact List.mem_cons_self
        · exact List.mem_cons_self
      change Store.Agree q.root s.store (Registry.relocate _ p target _).store
      rw [Registry.store_relocate]
      exact hdeclared.trans (Store.agree_retire (hq p (List.mem_cons_of_mem target hp)))

theorem agree_borrow (hledger : s.ledger.Disciplined) {source holder : Place} {kind : BorrowKind} {region : Region}
    (hholder : q.root ≠ holder.root) :
    Store.Agree q.root s.store (s.borrow source kind holder region).2.store := by
  cases hfault : (s.borrow source kind holder region).1 with
  | some fault =>
    refine (borrow_refused hledger hfault).agree fun d hd => ?_
    rw [Operation.destination?] at hd
    split at hd
    · cases hd
      exact hholder
    · exact absurd hd (by simp)
  | none =>
    obtain ⟨stop, id, ledger, -, -, hprepare⟩ := borrow_accepted hfault
    rcases (prepareHolder_cases hprepare).2 with ⟨-, -, ht⟩ | ⟨-, store, hassign, ht⟩ | ⟨-, store, hdeclare, ht⟩
    · rw [ht]
      exact Store.Agree.refl _ _
    · rw [ht]
      exact Store.agree_assignHolder hassign hholder
    · rw [ht]
      exact Store.agree_of_declare hdeclare hholder

theorem agree_apply (hledger : s.ledger.Disciplined) (hscope : ∀ id, op ≠ .scopeEnd id)
    (hq : ∀ p ∈ op.mentioned, q.root ≠ p.root) : Store.Agree q.root s.store (s.apply op).2.store := by
  have hsame : Store.Agree q.root s.store s.store := Store.Agree.refl _ _
  cases op with
  | scopeEnd id => exact absurd rfl (hscope id)
  | scopeBegin id =>
    rcases s.beginScope_cases id with hbegin | ⟨-, hbegin⟩
    · rw [apply, hbegin]
      exact hsame
    · rw [apply, hbegin]
      exact hsame
  | bind target init mutable perms facts => exact agree_bind hq
  | borrow source kind holder region => exact agree_borrow hledger (hq holder (by simp [Operation.mentioned]))
  | project p facts =>
    refine agree_guarded fun _ => ?_
    split
    · exact hsame
    · rw [Registry.registerFacts]
      split
      next => exact hsame
      next store hstore =>
        obtain ⟨-, rfl⟩ := Store.registerFacts_eq_ok_iff.mp hstore
        exact Store.agree_setFacts facts (hq p List.mem_cons_self)
  | move p => exact agree_guarded fun _ => Store.agree_retire (hq p List.mem_cons_self)
  | drop p => exact agree_guarded fun _ => Store.agree_retire (hq p List.mem_cons_self)
  | copy p =>
    refine agree_guarded fun moves => ?_
    cases moves with
    | false => exact hsame
    | true => exact Store.agree_retire (hq p List.mem_cons_self)
  | mutate p => exact agree_guarded fun _ => hsame
  | access p needs => exact agree_guarded fun _ => hsame
  | release p => exact agree_guarded fun _ => hsame
  | split array boundary => exact agree_guarded fun _ => hsame
  | unchecked p => exact hsame

theorem windows_splitsAfter (hscope : ∀ id, op ≠ .scopeEnd id) (hq : ∀ p ∈ op.mentioned, q.root ≠ p.root) :
    q.windows.all (s.splitsAfter op).has = q.windows.all s.splits.has := by
  cases op with
  | scopeEnd id => exact absurd rfl (hscope id)
  | split array boundary =>
    rw [splitsAfter]
    split
    next =>
      rw [Bool.eq_iff_iff, List.all_eq_true, List.all_eq_true]
      refine forall₂_congr fun w hw => ?_
      rw [Splits.has_insert_of_ne]
      intro harray
      refine hq array List.mem_cons_self ?_
      rw [← Place.root_of_mem_windows hw, ← harray]
    next => rfl
  | _ => rfl

/-- What an operation that does not mention the variable of `q` enters lends another variable. -/
theorem source_of_entered (hq : ∀ p ∈ op.mentioned, q.root ≠ p.root) {loan : Loan} (hloan : loan ∈ s.entered op) :
    loan.source.root ≠ q.root := by
  cases op with
  | borrow source kind holder region =>
    obtain ⟨stop, -, rfl⟩ := List.mem_map.mp hloan
    exact (hq source List.mem_cons_self).symm
  | _ => exact absurd hloan List.not_mem_nil

/-! ## Steps -/

theorem spares_step (hs : Reachable config s) (hscope : ∀ id, op ≠ .scopeEnd id)
    (hq : ∀ p ∈ op.mentioned, q.root ≠ p.root) : Spares q s (s.step op).2 := by
  cases hrun : s.stopped with
  | true =>
    rw [step_of_stopped hrun]
    exact ⟨Store.Agree.refl _ _, rfl, fun loan hloan => Or.inl ⟨loan, hloan, rfl⟩⟩
  | false =>
    refine ⟨?_, ?_, fun loan hloan => ?_⟩
    · obtain ⟨stopped, hstep⟩ := s.step_running hrun op
      rw [hstep]
      exact agree_apply (s := s.refreshed) hs.refreshed_disciplined hscope hq
    · rw [splits_step hs hrun]
      exact windows_splitsAfter hscope hq
    · rcases mem_loans_step hs hrun hloan with ⟨old, hold, hsame⟩ | hnew
      · exact Or.inl ⟨old, (mem_refreshed_iff.mp hold).1, hsame⟩
      · refine Or.inr ⟨source_of_entered hq hnew, ?_⟩
        rw [id_of_mem_entered hnew]
        exact Nat.le_refl _

/-- **Operations are local to the variables they mention.** An operation other than the closing of a scope, accepted or
not, leaves the facts, the declaration and the life of every place whose variable it does not mention. Such a place permits
what it did before, and more only if a loan that took the permission on it has gone. -/
theorem step_local_to_mentioned (hs : Reachable config s) (op : Operation) (hscope : ∀ id, op ≠ .scopeEnd id)
    (q : Place) (hq : ∀ p ∈ op.mentioned, q.root ≠ p.root) :
    let t := (s.step op).2
    t.store.factsOf? q = s.store.factsOf? q ∧ t.store.declared q = s.store.declared q ∧ t.isLive q = s.isLive q ∧
    (s.permissions? q = none → t.permissions? q = none) ∧
    ∀ before, s.permissions? q = some before → ∃ after, t.permissions? q = some after ∧ before ⊆ after ∧
      ∀ perm : PermSet, perm.IsSingle → perm ⊆ after → ¬ perm ⊆ before →
        ∃ loan ∈ s.ledger.loans, loan.Takes perm q ∧ ¬ t.ledger.Lives loan.id := by
  intro t
  have hspares : Spares q s t := spares_step hs hscope hq
  refine ⟨hspares.store.factsOf?, hspares.store.declared, hspares.isLive, fun hnone => ?_, fun before hbefore => ?_⟩
  · rw [← Option.not_isSome_iff_eq_none, isSome_permissions?_iff] at hnone ⊢
    rw [hspares.store.find]
    exact hnone
  · exact hspares.permissions? hs.sound.disciplined hbefore

/-- One field of a record is lent to a variable and another field to a second one. When the first variable is moved, its
field can be written and owned again, and about the other field nothing changes. -/
theorem moved_reference_frees_field :
    let s := (({} : Session).stepAll [.bindFreshMut (.var ⟨0⟩), .bindFreshMut (.var ⟨1⟩), .bindFreshMut (.var ⟨2⟩),
      .borrowExclusive ⟨⟨0⟩, [.field ⟨3⟩]⟩ (.var ⟨1⟩) (.scope .root),
      .borrowShared ⟨⟨0⟩, [.field ⟨4⟩]⟩ (.var ⟨2⟩) (.scope .root)]).2
    let t := (s.step (.move (.var ⟨1⟩))).2
    t.isLive ⟨⟨0⟩, [.field ⟨3⟩]⟩ = s.isLive ⟨⟨0⟩, [.field ⟨3⟩]⟩ ∧
    s.permissions? ⟨⟨0⟩, [.field ⟨3⟩]⟩ = some ∅ ∧ t.permissions? ⟨⟨0⟩, [.field ⟨3⟩]⟩ = some .all ∧
    (∃ loan ∈ s.ledger.loans, loan.Takes .write ⟨⟨0⟩, [.field ⟨3⟩]⟩ ∧ ¬ t.ledger.Lives loan.id) ∧
    s.permissions? ⟨⟨0⟩, [.field ⟨4⟩]⟩ = some .read ∧ t.permissions? ⟨⟨0⟩, [.field ⟨4⟩]⟩ = some .read := by
  intro s t
  have hs : Reachable {} s := (Reachable.start {}).stepAll _
  have hbefore : s.permissions? ⟨⟨0⟩, [.field ⟨3⟩]⟩ = some ∅ := by decide
  have hafter : t.permissions? ⟨⟨0⟩, [.field ⟨3⟩]⟩ = some .all := by decide
  obtain ⟨-, -, hlive, -, hgrows⟩ := step_local_to_mentioned hs (.move (.var ⟨1⟩)) (fun _ h => Operation.noConfusion h)
    ⟨⟨0⟩, [.field ⟨3⟩]⟩ (by decide)
  obtain ⟨after, hsome, -, hreleased⟩ := hgrows ∅ hbefore
  obtain rfl : after = .all := Option.some.inj (hsome.symm.trans hafter)
  exact ⟨hlive, hbefore, hafter, hreleased .write PermSet.isSingle_write (by decide) (by decide), by decide, by decide⟩

end Session

end BorrowChecker
