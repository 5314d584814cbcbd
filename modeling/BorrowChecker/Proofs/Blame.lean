import BorrowChecker.Proofs.Access
import BorrowChecker.Proofs.Faults
import BorrowChecker.Proofs.Turnover

/-!
# Who is to blame

A violation may name a loan. The rules find it in different ways: they take the oldest loan that excludes a new one, the
latest that suspends a permission, one that is left on a place that moves or dies, or one that a reborrow goes through.
`Session.Justified` says what the loan has to do with the fault in each case, and when there is none to be named. Loans
stand in the order of the operations that made them (`Ledger.Dated`), so the last one in the ledger is the latest.
-/

namespace BorrowChecker

/-! ## The time of loans -/

/-- The loans stand in the order of the operations that made them, all of which lie before `now`. -/
structure Ledger.Dated (ledger : Ledger) (now : Nat) : Prop where
  ordered : ledger.loans.Pairwise fun a b => a.created < b.created
  past : ∀ loan ∈ ledger.loans, loan.created < now

namespace Session

variable {config : Config} {s : Session} {op : Operation} {p : Place} {fault : Fault}

theorem created_of_fate {loan loan' : Loan} (h : s.fate op loan = some loan') : loan'.created = loan.created :=
  congrArg (·.created) (eq_of_fate h)

theorem created_of_mem_entered {loan : Loan} (h : loan ∈ s.entered op) : loan.created = s.next := by
  cases op with
  | borrow source kind holder region =>
    obtain ⟨stop, -, rfl⟩ := List.mem_map.mp h
    rfl
  | _ => exact absurd h List.not_mem_nil

theorem pairwise_entered (s : Session) (op : Operation) : (s.entered op).Pairwise fun a b => a.created < b.created := by
  cases op with
  | borrow source kind holder region =>
    rw [entered]
    cases s.regionStop? region <;> simp
  | _ => exact List.Pairwise.nil

theorem dated_refreshed (h : s.ledger.Dated s.next) : s.refreshed.ledger.Dated s.next where
  ordered := by
    rw [loans_refreshed]
    exact h.ordered.filter _
  past loan hloan := h.past loan (mem_refreshed_iff.mp hloan).1

theorem dated_apply (hledger : s.ledger.Disciplined) (hplaced : s.store.Placed) (h : s.ledger.Dated s.next) (op : Operation) :
    (s.apply op).2.ledger.Dated (s.next + 1) := by
  by_cases heffect : s.TakesEffect op
  · have hloans := loans_apply hledger hplaced heffect
    refine ⟨?_, fun loan hloan => ?_⟩
    · rw [hloans, List.pairwise_append]
      refine ⟨List.pairwise_filterMap.mpr (h.ordered.imp ?_), s.pairwise_entered op, ?_⟩
      · intro a b hlt a' ha' b' hb'
        rw [created_of_fate ha', created_of_fate hb']
        exact hlt
      · intro loan hkept new hnew
        obtain ⟨old, hold, hfate⟩ := List.mem_filterMap.mp hkept
        rw [created_of_fate hfate, created_of_mem_entered hnew]
        exact h.past old hold
    · rw [hloans] at hloan
      rcases List.mem_append.mp hloan with hkept | hnew
      · obtain ⟨old, hold, hfate⟩ := List.mem_filterMap.mp hkept
        rw [created_of_fate hfate]
        exact Nat.lt_succ_of_lt (h.past old hold)
      · rw [created_of_mem_entered hnew]
        exact Nat.lt_succ_self _
  · have hloans := loans_apply_of_not hledger heffect
    refine ⟨hloans ▸ h.ordered, fun loan hloan => Nat.lt_succ_of_lt (h.past loan ?_)⟩
    rw [← hloans]
    exact hloan

theorem Reachable.dated (h : Reachable config s) : s.ledger.Dated s.next := by
  refine Reachable.preserved (P := fun t => t.ledger.Dated t.next) ?_ (fun _ _ ht => ht) ?_ ?_ h
  · exact ⟨List.Pairwise.nil, fun _ hloan => absurd hloan List.not_mem_nil⟩
  · exact fun t ht => ⟨ht.ordered, fun loan hloan => Nat.lt_succ_of_lt (ht.past loan hloan)⟩
  · exact fun t op stopped hreach ht => dated_apply hreach.refreshed_disciplined hreach.placed (dated_refreshed ht) op

end Session

/-! ## Culprits -/

/-- The loan takes a permission on `p` away. -/
def Loan.Takes (loan : Loan) (perm : PermSet) (p : Place) : Prop :=
  loan.source.overlaps p = true ∧ perm ⊆ loan.kind.suspends

/-- The loan that is to be named for a permission that is missing at `p`: the latest that takes it away, if there is
one. -/
inductive Ledger.Culprit (ledger : Ledger) (perm : PermSet) (p : Place) : Option LoanInfo → Prop where
  | latest {loan : Loan} : loan ∈ ledger.loans → loan.Takes perm p →
      (∀ other ∈ ledger.loans, other.Takes perm p → other = loan ∨ other.created < loan.created) →
      Culprit ledger perm p (some loan.info)
  | nobody : (∀ loan ∈ ledger.loans, ¬ loan.Takes perm p) → Culprit ledger perm p none

namespace Ledger

variable {ledger : Ledger} {perm : PermSet} {p : Place}

theorem mem_blocking_iff (hperm : perm.IsSingle) {loan : Loan} :
    loan ∈ (ledger.overlapping p).filter (fun loan => loan.kind.suspends ∩ perm ≠ ∅) ↔
      loan ∈ ledger.loans ∧ loan.Takes perm p := by
  rw [List.mem_filter, mem_overlapping, decide_eq_true_iff, Ne, hperm.inter_eq_empty_iff, not_not, and_assoc]
  rfl

theorem culprit_blocking? {now : Nat} (h : ledger.Dated now) (hperm : perm.IsSingle) :
    ledger.Culprit perm p ((ledger.blocking? p perm).map Loan.info) := by
  cases hblocking : ledger.blocking? p perm with
  | none =>
    refine .nobody fun loan hloan htakes => ?_
    have hmem := (mem_blocking_iff hperm).mpr ⟨hloan, htakes⟩
    rw [List.getLast?_eq_none_iff.mp hblocking] at hmem
    exact absurd hmem List.not_mem_nil
  | some loan =>
    obtain ⟨hloan, htakes⟩ := (mem_blocking_iff hperm).mp (List.mem_of_getLast? hblocking)
    refine .latest hloan htakes fun other hother hothers => ?_
    obtain ⟨earlier, hlist⟩ := List.getLast?_eq_some_iff.mp hblocking
    have hordered := (h.ordered.filter (·.source.overlaps p)).filter fun loan => loan.kind.suspends ∩ perm ≠ ∅
    have hmem := (mem_blocking_iff hperm).mpr ⟨hother, hothers⟩
    rw [← overlapping, hlist] at hordered
    rw [hlist] at hmem
    rcases List.mem_append.mp hmem with hearlier | hlast
    · exact Or.inr ((List.pairwise_append.mp hordered).2.2 other hearlier loan List.mem_cons_self)
    · exact Or.inl (List.mem_singleton.mp hlast)

end Ledger

/-! ## Justified faults -/

/-- What a loan that stands in the way of an operation has to do with the place in question: it lends from it, or, if a
reborrow would outlive it, it is held on the way there. -/
def Loan.Obstructs (loan : Loan) (p : Place) : Operation → ViolationKind → Prop
  | .borrow _ _ _ _, .loanOutlivesSource => loan.holder.isPrefixOf p = true
  | _, _ => loan.source.overlaps p = true

namespace Session

/-- A permission that a borrow is refused for is missing at its source or at its holder. -/
inductive BorrowLacks (s : Session) (source : Place) (kind : BorrowKind) (holder : Place) (perm : PermSet)
    (fault : Fault) : Prop where
  /-- The source lacks the permission, and not on account of a loan. -/
  | source : fault.place = some source → fault.loan = none → (∀ loan ∈ s.ledger.loans, ¬ loan.Takes perm source) →
      BorrowLacks s source kind holder perm fault
  /-- The source permits all that it has to. It is the holder that cannot be written, and if on account of a loan, then of
  the one that the borrow would make. -/
  | holder : fault.place = some holder → perm = .write → s.checkAccess source kind.requires = .ok () →
      (∀ info, fault.loan = some info → info.created = s.next) → BorrowLacks s source kind holder perm fault

/-- The fault is put down to the right loan, if to any. -/
structure Justified (s : Session) (op : Operation) (fault : Fault) : Prop where
  /-- A loan that stands in the way is live and comes from an earlier operation. -/
  conflict : fault.kind.isConflict = true →
    ∃ loan ∈ s.ledger.loans, ∃ p, fault.loan = some loan.info ∧ fault.place = some p ∧
      loan.created < s.next ∧ loan.Obstructs p op fault.kind
  /-- A permission is missing at the place that is accessed, on account of the latest loan that takes it away. -/
  access : ∀ p, op.accessed? = some p → ∀ perm, fault.kind.permission? = some perm →
    fault.place = some p ∧ s.ledger.Culprit perm p fault.loan
  /-- A permission that is missing when something is lent is not put down to any loan that is live. -/
  borrow : ∀ source kind holder region, op = .borrow source kind holder region →
    ∀ perm, fault.kind.permission? = some perm → s.BorrowLacks source kind holder perm fault
  /-- Nothing else has to do with loans. -/
  silent : fault.kind.isConflict = false → fault.kind.permission? = none → fault.loan = none

variable {config : Config} {s : Session} {op : Operation} {p : Place} {fault : Fault}

theorem justified_of_conflict (hdated : s.ledger.Dated s.next) {kind : ViolationKind} {loan : Loan}
    (hkind : kind.isConflict = true) (hloan : loan ∈ s.ledger.loans) (hobstructs : loan.Obstructs p op kind) :
    s.Justified op (.about kind p (some loan)) where
  conflict _ := ⟨loan, hloan, p, rfl, rfl, hdated.past loan hloan, hobstructs⟩
  access _ _ _ hperm := Bool.noConfusion (hkind.symm.trans (ViolationKind.isConflict_of_permission? hperm))
  borrow _ _ _ _ _ _ hperm := Bool.noConfusion (hkind.symm.trans (ViolationKind.isConflict_of_permission? hperm))
  silent hsilent := Bool.noConfusion (hkind.symm.trans hsilent)

theorem justified_of_lent (hdated : s.ledger.Dated s.next) {loan : Loan} (hloan : loan ∈ s.ledger.overlapping p) :
    s.Justified op (.about .conflictingBorrow p (some loan)) := by
  obtain ⟨hmem, hoverlap⟩ := Ledger.mem_overlapping.mp hloan
  refine justified_of_conflict hdated rfl hmem ?_
  cases op <;> exact hoverlap

theorem justified_of_silent (hconflict : fault.kind.isConflict = false) (hperm : fault.kind.permission? = none)
    (hloan : fault.loan = none) : s.Justified op fault where
  conflict h := Bool.noConfusion (hconflict.symm.trans h)
  access _ _ _ h := absurd (h.symm.trans hperm) (Option.some_ne_none _)
  borrow _ _ _ _ _ _ h := absurd (h.symm.trans hperm) (Option.some_ne_none _)
  silent _ _ := hloan

/-- Whatever is reported of a place by the rules of access is justified, as far as no borrow is concerned. -/
theorem justified_of_ofAccess (hdated : s.ledger.Dated s.next) (h : fault.OfAccess s.ledger p)
    (haccessed : ∀ q, op.accessed? = some q → q = p)
    (hborrow : ∀ source kind holder region, op ≠ .borrow source kind holder region) : s.Justified op fault := by
  cases h with
  | unusable hperm hconflict => exact justified_of_silent hconflict hperm rfl
  | lent hloan => exact justified_of_lent hdated hloan
  | @missing kind perm hperm =>
    have hsingle := ViolationKind.isSingle_of_permission? hperm
    refine ⟨fun h => ?_, fun q hq perm' hperm' => ?_, fun _ _ _ _ hop => (hborrow _ _ _ _ hop).elim, fun _ h => ?_⟩
    · exact Bool.noConfusion (h.symm.trans (ViolationKind.isConflict_of_permission? hperm))
    · obtain rfl := haccessed q hq
      obtain rfl : perm' = perm := Option.some.inj (hperm'.symm.trans hperm)
      exact ⟨rfl, Ledger.culprit_blocking? hdated hsingle⟩
    · exact absurd (hperm.symm.trans h) (Option.some_ne_none _)

theorem justified_of_accessed (hdated : s.ledger.Dated s.next) (hop : op.accessed? = some p)
    (h : fault.OfAccess s.ledger p) : s.Justified op fault := by
  refine justified_of_ofAccess hdated h (fun q hq => Option.some.inj (hq.symm.trans hop)) ?_
  rintro source kind holder region rfl
  exact absurd hop.symm (Option.some_ne_none _)

/-! ## Operations -/

theorem justified_of_endScope (hledger : s.ledger.Disciplined) (hdated : s.ledger.Dated s.next) {id : ScopeId}
    (h : (s.endScope id).1 = some fault) : s.Justified (.scopeEnd id) fault := by
  rcases s.endScope_cases id with ⟨-, hend⟩ | ⟨-, -, hend⟩
  · rw [hend] at h
    cases h
    exact justified_of_silent rfl rfl rfl
  · rw [hend] at h
    obtain ⟨p, -, loan, -, rfl, hlent⟩ := Registry.buryAll_eq_some h
    obtain ⟨hmem, hoverlap⟩ := Ledger.mem_overlapping.mp (hlent (disciplined_unwound hledger id))
    rw [loans_unwound hledger] at hmem
    exact justified_of_conflict hdated rfl (List.mem_of_mem_filter hmem) hoverlap

theorem justified_of_bind (hdated : s.ledger.Dated s.next) {target : Place} {init : Init} {mutable : Bool}
    {perms : PermSet} {facts : TypeFacts} (h : (s.bind target init mutable perms facts).1 = some fault) :
    s.Justified (.bind target init mutable perms facts) fault := by
  rcases s.bind_cases target init mutable perms facts with
    ⟨fault', hinit, hbind⟩ | ⟨source, e, -, -, hbind⟩ | ⟨source, store, -, -, hbind⟩
  · rw [hbind] at h
    cases h
    obtain ⟨p, haccess⟩ := ofAccess_of_checkInit hinit
    exact justified_of_ofAccess hdated haccess (fun _ hq => absurd hq.symm (Option.some_ne_none _))
      (fun _ _ _ _ hop => Operation.noConfusion hop)
  · rw [hbind] at h
    cases h
    exact {
      conflict := fun h => Bool.noConfusion (h.symm.trans e.isConflict_violationKind)
      access := fun _ hq => absurd hq.symm (Option.some_ne_none _)
      borrow := fun _ _ _ _ hop => Operation.noConfusion hop
      silent := fun _ _ => rfl }
  · rw [hbind] at h
    exact absurd h (by simp)

section Borrow

variable {source holder : Place} {kind : BorrowKind} {region : Region}

theorem justified_of_borrowLacks {perm : PermSet} (hperm : fault.kind.permission? = some perm)
    (h : s.BorrowLacks source kind holder perm fault) : s.Justified (.borrow source kind holder region) fault where
  conflict hconflict := Bool.noConfusion (hconflict.symm.trans (ViolationKind.isConflict_of_permission? hperm))
  access _ hq := absurd hq.symm (Option.some_ne_none _)
  borrow _ _ _ _ hop perm' hperm' := by
    cases hop
    rw [Option.some.inj (hperm'.symm.trans hperm)]
    exact h
  silent _ hnone := absurd (hperm.symm.trans hnone) (Option.some_ne_none _)

theorem justified_of_checkBorrow (hdated : s.ledger.Dated s.next) (h : s.checkBorrow source kind region = .error fault) :
    s.Justified (.borrow source kind holder region) fault := by
  obtain ⟨haccess, hunnamed⟩ := ofAccess_of_checkBorrow h
  cases haccess with
  | unusable hperm hconflict => exact justified_of_silent hconflict hperm rfl
  | lent hloan => exact justified_of_lent hdated hloan
  | @missing missing perm hperm =>
    have hnone : (s.ledger.blocking? source perm).map Loan.info = none := hunnamed perm hperm
    have hculprit := Ledger.culprit_blocking? (p := source) hdated (ViolationKind.isSingle_of_permission? hperm)
    rw [hnone] at hculprit
    cases hculprit with
    | nobody hfree => exact justified_of_borrowLacks hperm (.source rfl hnone hfree)

theorem justified_of_ledger (hdated : s.ledger.Dated s.next) {request : LoanRequest} {nesting : Nesting} {e : LoanError}
    (h : s.ledger.borrow request nesting = .error e) :
    s.Justified (.borrow source kind holder region) (e.fault request.source) := by
  rcases Ledger.borrow_eq_error h with ⟨existing, hobstacle, rfl⟩ | ⟨parent, hparent, -, rfl⟩
  · exact justified_of_lent hdated (Ledger.mem_of_obstacle? hobstacle)
  · obtain ⟨hmem, hthrough⟩ := Ledger.mem_parents.mp hparent
    exact justified_of_conflict hdated rfl hmem hthrough

/-- While the reference is stored, the new loan is in the ledger, and it is the only one that can keep the holder from
being written. -/
theorem justified_of_prepareHolder (hledger : s.ledger.Disciplined) (hdated : s.ledger.Dated s.next) {stop : Nat}
    {id : LoanId} {ledger : Ledger} (hcheck : s.checkBorrow source kind region = .ok stop)
    (hlend : s.ledger.borrow ⟨source, kind, holder, region, stop, s.next⟩ s.config.nesting = .ok (id, ledger))
    {lent : Session} (hlent : lent.ledger = ledger) (h : lent.prepareHolder holder kind id = .error fault) :
    s.Justified (.borrow source kind holder region) fault := by
  subst hlent
  rcases prepareHolder_eq_error h with ⟨loan, hloan, hother, rfl⟩ | ⟨hnew, hfault⟩
  · obtain ⟨hmem, hoverlap⟩ := Ledger.mem_overlapping.mp hloan
    rcases hledger.mem_of_borrow hlend hmem with ⟨hold, -⟩ | rfl
    · exact justified_of_lent hdated (Ledger.mem_overlapping.mpr ⟨hold, hoverlap⟩)
    · exact (hother rfl).elim
  · have hsource := checkAccess_of_checkBorrow hcheck
    rcases hfault with ⟨e, rfl⟩ | rfl
    · cases hperm : e.violationKind.permission? with
      | none => exact justified_of_silent e.isConflict_violationKind hperm rfl
      | some perm =>
        refine justified_of_borrowLacks hperm (.holder rfl (StoreError.eq_write_of_permission? hperm) hsource ?_)
        exact fun _ hinfo => absurd hinfo.symm (Option.some_ne_none _)
    · refine justified_of_borrowLacks rfl (.holder rfl rfl hsource fun info hinfo => ?_)
      obtain ⟨loan, hblocking, rfl⟩ := Option.map_eq_some_iff.mp hinfo
      have hloan := Ledger.mem_of_blocking? hblocking
      rcases hledger.mem_of_borrow hlend (Ledger.mem_overlapping.mp hloan).1 with ⟨-, hother⟩ | rfl
      · exact (hother (hnew loan hloan)).elim
      · rfl

theorem justified_of_borrow (hledger : s.ledger.Disciplined) (hdated : s.ledger.Dated s.next)
    (h : (s.borrow source kind holder region).1 = some fault) : s.Justified (.borrow source kind holder region) fault := by
  rcases s.borrow_cases source kind holder region with
    ⟨fault', hcheck, hborrow⟩ | ⟨stop, hcheck, ⟨e, hlend, hborrow⟩ | ⟨id, ledger, hlend, hrest⟩⟩
  · rw [hborrow] at h
    cases h
    exact justified_of_checkBorrow hdated hcheck
  · rw [hborrow] at h
    cases h
    exact justified_of_ledger hdated hlend
  · rcases hrest with ⟨fault', hprepare, hborrow⟩ | ⟨t, -, hborrow⟩
    · rw [hborrow] at h
      cases h
      exact justified_of_prepareHolder hledger hdated hcheck hlend rfl hprepare
    · rw [hborrow] at h
      exact absurd h (by simp)

end Borrow

/-- Every fault that an operation ends with is justified. -/
theorem justified_of_apply (hledger : s.ledger.Disciplined) (hdated : s.ledger.Dated s.next)
    (h : (s.apply op).1 = some fault) : s.Justified op fault := by
  cases op with
  | scopeBegin id =>
    rcases s.beginScope_cases id with hbegin | ⟨-, hbegin⟩
    · rw [apply, hbegin] at h
      cases h
      exact justified_of_silent rfl rfl rfl
    · rw [apply, hbegin] at h
      exact absurd h (by simp)
  | scopeEnd id => exact justified_of_endScope hledger hdated h
  | bind target init mutable perms facts => exact justified_of_bind hdated h
  | borrow source kind holder region => exact justified_of_borrow hledger hdated h
  | project p facts =>
    obtain rfl := checkPath_eq_error (guarded_rejected h)
    exact justified_of_silent rfl rfl rfl
  | release p =>
    obtain rfl := checkPath_eq_error (guarded_rejected h)
    exact justified_of_silent rfl rfl rfl
  | split array boundary =>
    obtain ⟨e, rfl | rfl, rfl⟩ := checkLive_eq_error (guarded_rejected h)
    · exact justified_of_silent rfl rfl rfl
    · exact justified_of_silent rfl rfl rfl
  | move p => exact justified_of_accessed hdated rfl (ofAccess_of_checkMove (guarded_rejected h))
  | copy p => exact justified_of_accessed hdated rfl (ofAccess_of_checkCopy (guarded_rejected h))
  | mutate p => exact justified_of_accessed hdated rfl (ofAccess_of_checkAccess (guarded_rejected h))
  | access p needs => exact justified_of_accessed hdated rfl (ofAccess_of_checkAccess (guarded_rejected h))
  | drop p => exact justified_of_accessed hdated rfl (ofAccess_of_checkDrop (guarded_rejected h))
  | unchecked p => exact absurd h (by simp [apply])

/-! ## Steps -/

/-- **Violations blame the right loan.** A violation bears the index of its operation, and the loan that it names, or that
it names none, is justified by the loans that have not run out. -/
theorem violation_justified (hs : Reachable config s) {v : Violation} (hv : (s.step op).1 = .violation v) :
    v.index = s.next ∧ s.refreshed.Justified op v.toFault := by
  obtain ⟨hrun, hfault, -⟩ := step_rejected hv
  refine ⟨?_, justified_of_apply hs.refreshed_disciplined (dated_refreshed hs.dated) hfault⟩
  rcases s.step_cases hrun op with ⟨-, hstep⟩ | ⟨fault, -, hstep⟩
  · rw [hstep] at hv
    exact absurd hv (by simp)
  · rw [hstep] at hv
    cases hv
    rfl

/-- Two shared loans overlap a variable and a third has been given back; a write to the variable is put down to the
later one of the two. -/
theorem write_blames_latest :
    let s := (({} : Session).stepAll [.bindFreshMut (.var ⟨0⟩),
      .borrowShared (.var ⟨0⟩) (.var ⟨1⟩) (.scope .root),
      .borrowShared ⟨⟨0⟩, [.field ⟨4⟩]⟩ (.var ⟨2⟩) (.scope .root),
      .borrowShared (.var ⟨0⟩) (.var ⟨3⟩) (.scope .root), .release (.var ⟨3⟩)]).2
    let v : Violation :=
      ⟨⟨.missingWrite, some (.var ⟨0⟩), some ⟨⟨1⟩, ⟨⟨0⟩, [.field ⟨4⟩]⟩, .shared, .var ⟨2⟩, 2⟩⟩, 5⟩
    (s.step (.mutate (.var ⟨0⟩))).1 = .violation v ∧ v.index = s.next ∧
    s.refreshed.ledger.Culprit .write (.var ⟨0⟩) v.loan := by
  intro s v
  have hs : Reachable {} s := (Reachable.start {}).stepAll _
  have hv : (s.step (.mutate (.var ⟨0⟩))).1 = .violation v := by decide
  obtain ⟨hindex, hjustified⟩ := violation_justified hs hv
  exact ⟨hv, hindex, (hjustified.access _ rfl _ rfl).2⟩

end Session

end BorrowChecker
