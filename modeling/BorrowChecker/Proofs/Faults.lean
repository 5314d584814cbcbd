import BorrowChecker.Proofs.Outcome

/-!
# What is reported

For each rule of access, the faults that it can end with, and for each of them the loan that is named. The faults of
accesses, moves, copies and drops are of one form (`Fault.OfAccess`): the place is not usable, or it is lent, or a
permission is missing. A fault of the last sort names the latest loan that suspends the permission. Later proofs take a
fault apart through these lemmas only.
-/

namespace BorrowChecker

/-! ## Kinds of faults -/

namespace ViolationKind

/-- The permission that a violation of this kind reports as missing. -/
def permission? : ViolationKind → Option PermSet
  | .missingRead => some .read
  | .missingWrite => some .write
  | .missingOwn => some .own
  | _ => none

/-- Whether a violation of this kind says that a loan stands in the way. -/
def isConflict : ViolationKind → Bool
  | .conflictingBorrow | .loanOutlivesSource => true
  | _ => false

theorem isSingle_of_permission? {kind : ViolationKind} {perm : PermSet} (h : kind.permission? = some perm) :
    perm.IsSingle := by
  cases kind with
  | missingRead =>
    cases h
    exact PermSet.isSingle_read
  | missingWrite =>
    cases h
    exact PermSet.isSingle_write
  | missingOwn =>
    cases h
    exact PermSet.isSingle_own
  | _ => exact absurd h (by simp [permission?])

theorem isConflict_of_permission? {kind : ViolationKind} {perm : PermSet} (h : kind.permission? = some perm) :
    kind.isConflict = false := by
  cases kind with
  | conflictingBorrow => exact absurd h (by simp [permission?])
  | loanOutlivesSource => exact absurd h (by simp [permission?])
  | _ => rfl

end ViolationKind

namespace StoreError

theorem isConflict_violationKind (e : StoreError) : e.violationKind.isConflict = false := by
  cases e <;> rfl

/-- The only permission that the store misses is that to write. -/
theorem eq_write_of_permission? {e : StoreError} {perm : PermSet} (h : e.violationKind.permission? = some perm) :
    perm = .write := by
  cases e with
  | notMutable => exact (Option.some.inj h).symm
  | _ => exact absurd h (by simp [violationKind, ViolationKind.permission?])

end StoreError

/-- What can be reported of an access to `p` while the loans of a ledger are live. -/
inductive Fault.OfAccess (ledger : Ledger) (p : Place) : Fault → Prop where
  /-- The place cannot be named, has been moved out, or does not own its value, whatever is lent. -/
  | unusable {kind : ViolationKind} :
      kind.permission? = none → kind.isConflict = false → OfAccess ledger p (.about kind p)
  | lent {loan : Loan} : loan ∈ ledger.overlapping p → OfAccess ledger p (.about .conflictingBorrow p (some loan))
  | missing {kind : ViolationKind} {perm : PermSet} :
      kind.permission? = some perm → OfAccess ledger p (.about kind p (ledger.blocking? p perm))

theorem StoreError.ofAccess_fault {e : StoreError} (h : e = .unknown ∨ e = .moved) (ledger : Ledger) (p : Place) :
    (e.fault p).OfAccess ledger p := by
  rcases h with rfl | rfl
  · exact .unusable rfl rfl
  · exact .unusable rfl rfl

theorem map_eq_error_iff {ε α β : Type} {x : Except ε α} {f : α → β} {e : ε} : x.map f = .error e ↔ x = .error e := by
  cases x with
  | error e' => simp [Except.map]
  | ok a => simp [Except.map]

/-! ## Loans that are refused -/

namespace Ledger

variable {ledger : Ledger} {p : Place} {loan : Loan}

theorem mem_of_blocking? {needs : PermSet} (h : ledger.blocking? p needs = some loan) : loan ∈ ledger.overlapping p :=
  List.mem_of_mem_filter (List.mem_of_getLast? h)

theorem mem_of_obstacle? {kind : BorrowKind} (h : ledger.obstacle? p kind = some loan) : loan ∈ ledger.overlapping p :=
  List.mem_of_find?_eq_some h

/-- A place that can be lent again keeps what the new loan asks for. -/
theorem blocking?_of_obstacle? {kind : BorrowKind} {perm : PermSet}
    (hfree : ledger.obstacle? p kind = none) (hperm : perm ⊆ kind.requires) : ledger.blocking? p perm = none := by
  rw [blocking?, List.getLast?_eq_none_iff, List.filter_eq_nil_iff]
  intro loan hloan
  obtain ⟨hmem, hoverlap⟩ := mem_overlapping.mp hloan
  obtain ⟨hshared, rfl⟩ := BorrowKind.compatible_iff.mp (obstacle?_eq_none_iff.mp hfree loan hmem hoverlap)
  have hspared : perm ∩ .writeOwn = ∅ := (PermSet.subset_sdiff_iff (b := .read)).mp hperm |>.2
  rw [hshared, BorrowKind.suspends, PermSet.inter_comm, hspared]
  simp

/-- The ledger refuses a loan because of one on overlapping storage, or because of one that it goes through and does not
nest in. -/
theorem borrow_eq_error {request : LoanRequest} {nesting : Nesting} {e : LoanError}
    (h : ledger.borrow request nesting = .error e) :
    (∃ existing, ledger.obstacle? request.source request.kind = some existing ∧ e = .conflicting existing) ∨
    (∃ parent ∈ ledger.parents request.source, nesting.nests request.stop parent.stop = false ∧ e = .outlives parent) := by
  rw [borrow] at h
  split at h
  next existing hobstacle =>
    cases h
    exact Or.inl ⟨existing, hobstacle, rfl⟩
  next =>
    split at h
    next parent hparent =>
      cases h
      exact Or.inr ⟨parent, List.mem_of_find?_eq_some hparent, by simpa using List.find?_some hparent, rfl⟩
    next => exact absurd h (by simp)

end Ledger

/-! ## Lives that end -/

namespace Registry

variable {r : Registry}

theorem ledger_retire (r : Registry) (p : Place) : (r.retire p).ledger = r.ledger := by
  rw [retire]
  split <;> rfl

theorem ledger_bury (r : Registry) (p : Place) :
    (r.bury p).2.ledger = ((r.ledger.releaseEach (r.ledger.lentIds p)).releaseHeldBy p).2 :=
  ledger_retire _ p

theorem loans_bury_sublist (r : Registry) (p : Place) : (r.bury p).2.ledger.loans.Sublist r.ledger.loans := by
  rw [ledger_bury, Ledger.releaseHeldBy, Ledger.snd_releaseWhere]
  exact List.filter_sublist.trans (r.ledger.loans_releaseEach_sublist _)

theorem disciplined_bury (h : r.ledger.Disciplined) (p : Place) : (r.bury p).2.ledger.Disciplined := by
  rw [ledger_bury]
  exact (h.releaseEach _).releaseWhere _

/-- When variables die, the fault is about one of them and a loan that is left. If the loans are in order, it lends the
variable. -/
theorem buryAll_eq_some {ps : List Place} {fault : Fault} (h : (r.buryAll ps).1 = some fault) :
    ∃ p ∈ ps, ∃ loan ∈ r.ledger.loans, fault = .about .loanOutlivesSource p (some loan) ∧
      (r.ledger.Disciplined → loan ∈ r.ledger.overlapping p) := by
  induction ps generalizing r with
  | nil => exact absurd h (by simp [buryAll])
  | cons p ps ih =>
    change ((r.bury p).1 <|> ((r.bury p).2.buryAll ps).1) = some fault at h
    cases hfirst : (r.bury p).1 with
    | some first =>
      rw [hfirst] at h
      obtain ⟨loan, hloan, rfl⟩ := Option.map_eq_some_iff.mp (hfirst.trans h)
      obtain ⟨id, -, hget⟩ := Option.bind_eq_some_iff.mp hloan
      refine ⟨p, List.mem_cons_self, loan, List.mem_of_find?_eq_some hget, rfl, fun hdisciplined => ?_⟩
      rw [hdisciplined.get?_head_lentIds] at hloan
      exact List.mem_of_head? hloan
    | none =>
      rw [hfirst] at h
      obtain ⟨q, hq, loan, hloan, hfault, hlent⟩ := ih h
      have hbefore := (r.loans_bury_sublist p).subset hloan
      refine ⟨q, List.mem_cons_of_mem _ hq, loan, hbefore, hfault, fun hdisciplined => ?_⟩
      have hoverlap := (Ledger.mem_overlapping.mp (hlent (disciplined_bury hdisciplined p))).2
      exact Ledger.mem_overlapping.mpr ⟨hbefore, hoverlap⟩

end Registry

/-! ## Rules that fail -/

theorem Store.checkLive_eq_error {store : Store} {p : Place} {e : StoreError} (h : store.checkLive p = .error e) :
    e = .unknown ∨ e = .moved := by
  rw [checkLive, rootOf] at h
  cases hfind : store.find? p.root with
  | none =>
    rw [hfind] at h
    cases h
    exact Or.inl rfl
  | some decl =>
    rw [hfind] at h
    dsimp only at h
    split at h
    · cases h
      exact Or.inr rfl
    · exact absurd h (by simp)

namespace Session

variable {s : Session} {p : Place} {fault : Fault}

theorem checkPath_eq_error (h : s.checkPath p = .error fault) : fault = StoreError.unknown.fault p := by
  rw [checkPath] at h
  split at h
  · exact absurd h (by simp)
  · cases h
    rfl

theorem checkLive_eq_error (h : s.checkLive p = .error fault) :
    ∃ e : StoreError, (e = .unknown ∨ e = .moved) ∧ fault = e.fault p := by
  rcases bind_eq_error h with hpath | ⟨_, -, hlive⟩
  · exact ⟨.unknown, Or.inl rfl, checkPath_eq_error hpath⟩
  · split at hlive
    next => exact absurd hlive (by simp)
    next e hstore =>
      cases hlive
      exact ⟨e, Store.checkLive_eq_error hstore, rfl⟩

/-- The permissions of a usable place are known. -/
theorem permissions_of_checkLive (h : s.checkLive p = .ok ()) : ∃ perms, s.permissionsAt p = .ok perms := by
  have hlive : s.store.Live p := (checkLive_eq_ok_iff.mp h).2
  obtain ⟨declared, hdeclared⟩ := Store.declared_of_live hlive
  refine ⟨declared \ s.ledger.suspended p, permissionsAt_eq_ok_iff.mpr ?_⟩
  exact (Store.permissions_of_live hlive s.ledger).trans (map_eq_ok_iff.mpr ⟨declared, hdeclared, rfl⟩)

/-- An access is refused because the place is not usable, or for the first permission that is missing. -/
theorem checkAccess_eq_error {needs : PermSet} (h : s.checkAccess p needs = .error fault) :
    (∃ e : StoreError, (e = .unknown ∨ e = .moved) ∧ fault = e.fault p) ∨
    ∃ perms : PermSet, ¬ needs ⊆ perms ∧
      if .read ⊆ perms.missing needs then
        (∃ loan ∈ s.ledger.overlapping p, fault = .about .conflictingBorrow p (some loan)) ∨
          fault = .about .missingRead p (s.ledger.blocking? p .read)
      else if .write ⊆ perms.missing needs then fault = .about .missingWrite p (s.ledger.blocking? p .write)
      else fault = .about .missingOwn p (s.ledger.blocking? p .own) := by
  rcases bind_eq_error h with hlive | ⟨_, hlive, hrest⟩
  · exact Or.inl (checkLive_eq_error hlive)
  · obtain ⟨perms, hperms⟩ := permissions_of_checkLive hlive
    rcases bind_eq_error hrest with hfailed | ⟨_, hperms', hmissing⟩
    · exact absurd (hperms.symm.trans hfailed) (by simp)
    · cases hperms.symm.trans hperms'
      refine Or.inr ⟨perms, ?_⟩
      dsimp only at hmissing
      by_cases hnone : perms.missing needs = ∅
      · rw [if_pos hnone] at hmissing
        exact absurd hmissing (by simp)
      · refine ⟨fun hneeds => hnone (PermSet.missing_eq_empty_iff.mpr hneeds), ?_⟩
        rw [if_neg hnone] at hmissing
        split
        next hread =>
          rw [if_pos hread] at hmissing
          cases hblocking : s.ledger.blocking? p .read with
          | some loan =>
            rw [hblocking] at hmissing
            cases hmissing
            exact Or.inl ⟨loan, Ledger.mem_of_blocking? hblocking, rfl⟩
          | none =>
            rw [hblocking] at hmissing
            cases hmissing
            exact Or.inr rfl
        next hread =>
          rw [if_neg hread] at hmissing
          split
          next hwrite =>
            rw [if_pos hwrite] at hmissing
            cases hmissing
            rfl
          next hwrite =>
            rw [if_neg hwrite] at hmissing
            cases hmissing
            rfl

theorem ofAccess_of_checkAccess {needs : PermSet} (h : s.checkAccess p needs = .error fault) :
    fault.OfAccess s.ledger p := by
  rcases checkAccess_eq_error h with ⟨e, he, rfl⟩ | ⟨perms, -, hmissing⟩
  · exact StoreError.ofAccess_fault he _ p
  · split_ifs at hmissing with hread hwrite
    · rcases hmissing with ⟨loan, hloan, rfl⟩ | rfl
      · exact .lent hloan
      · exact .missing rfl
    · exact hmissing ▸ .missing rfl
    · exact hmissing ▸ .missing rfl

/-- Only writing can be missing when nothing else is needed. -/
theorem checkAccess_write_eq_error (h : s.checkAccess p .write = .error fault) :
    (∃ e : StoreError, fault = e.fault p) ∨ fault = .about .missingWrite p (s.ledger.blocking? p .write) := by
  rcases checkAccess_eq_error h with ⟨e, -, hfault⟩ | ⟨perms, hlacks, hmissing⟩
  · exact Or.inl ⟨e, hfault⟩
  · have hread : ¬ .read ⊆ perms.missing .write := by
      rw [PermSet.isSingle_read.subset_missing_iff]
      exact fun h => absurd h.1 (by decide)
    have hwrite : .write ⊆ perms.missing .write := by
      rw [PermSet.isSingle_write.subset_missing_iff]
      exact ⟨by decide, hlacks⟩
    rw [if_neg hread, if_pos hwrite] at hmissing
    exact Or.inr hmissing

theorem ofAccess_of_checkMove (h : s.checkMove p = .error fault) : fault.OfAccess s.ledger p := by
  rcases bind_eq_error h with haccess | ⟨_, -, hlent⟩
  · exact ofAccess_of_checkAccess haccess
  · split at hlent
    next loan hloan =>
      cases hlent
      exact .lent (List.mem_of_getLast? hloan)
    next => exact absurd hlent (by simp)

theorem ofAccess_of_checkCopy (h : s.checkCopy p = .error fault) : fault.OfAccess s.ledger p := by
  rw [checkCopy] at h
  split at h
  · rcases bind_eq_error h with haccess | ⟨_, -, hok⟩
    · exact ofAccess_of_checkAccess haccess
    · exact absurd hok (by simp)
  · rcases bind_eq_error h with hmove | ⟨_, -, hok⟩
    · exact ofAccess_of_checkMove hmove
    · exact absurd hok (by simp)

theorem ofAccess_of_checkDrop (h : s.checkDrop p = .error fault) : fault.OfAccess s.ledger p := by
  rcases bind_eq_error h with hpath | ⟨_, -, hrest⟩
  · exact checkPath_eq_error hpath ▸ .unusable rfl rfl
  · split at hrest
    · exact ofAccess_of_checkAccess hrest
    · cases hrest
      exact .unusable rfl rfl

theorem ofAccess_of_checkInit {init : Init} (h : s.checkInit init = .error fault) :
    ∃ source, fault.OfAccess s.ledger source := by
  cases init with
  | fresh => exact absurd h (by simp [checkInit])
  | move source => exact ⟨source, ofAccess_of_checkMove (map_eq_error_iff.mp h)⟩
  | copy source => exact ⟨source, ofAccess_of_checkCopy (map_eq_error_iff.mp h)⟩

/-! ## Borrows that fail -/

/-- What is reported of the source of a borrow has the form that it has for an access, and no loan is named for a
permission that is missing. -/
theorem ofAccess_of_checkBorrow {kind : BorrowKind} {region : Region} (h : s.checkBorrow p kind region = .error fault) :
    fault.OfAccess s.ledger p ∧ ∀ perm, fault.kind.permission? = some perm → fault.loan = none := by
  rw [checkBorrow] at h
  split at h
  · cases h
    exact ⟨.unusable rfl rfl, fun _ _ => rfl⟩
  · rcases bind_eq_error h with hlive | ⟨_, hlive, hrest⟩
    · obtain ⟨e, he, rfl⟩ := checkLive_eq_error hlive
      exact ⟨StoreError.ofAccess_fault he _ p, fun _ _ => rfl⟩
    · split at hrest
      next loan hloan =>
        cases hrest
        exact ⟨.lent (Ledger.mem_of_obstacle? hloan), fun _ hperm => absurd hperm.symm (Option.some_ne_none _)⟩
      next hfree =>
        -- nothing is lent that could be named
        have hmissing : ∀ {missing : ViolationKind} {perm : PermSet}, missing.permission? = some perm →
            perm ⊆ kind.requires → (Fault.about missing p).OfAccess s.ledger p := by
          intro missing perm hkind hperm
          rw [← Ledger.blocking?_of_obstacle? hfree hperm]
          exact .missing hkind
        rcases bind_eq_error hrest with hfailed | ⟨perms, -, hrest⟩
        · obtain ⟨perms, hperms⟩ := permissions_of_checkLive hlive
          exact absurd (hperms.symm.trans hfailed) (by simp)
        · dsimp only at hrest
          split_ifs at hrest with hread hwrite
          · cases hrest
            exact ⟨hmissing rfl (PermSet.isSingle_read.subset_missing_iff.mp hread).1, fun _ _ => rfl⟩
          · cases hrest
            exact ⟨hmissing rfl (PermSet.isSingle_write.subset_missing_iff.mp hwrite).1, fun _ _ => rfl⟩

/-- A reference cannot be stored where another loan is taken, where the store does not take it, or into a part that
cannot be written. -/
theorem prepareHolder_eq_error {holder : Place} {kind : BorrowKind} {id : LoanId}
    (h : s.prepareHolder holder kind id = .error fault) :
    (∃ loan ∈ s.ledger.overlapping holder, loan.id ≠ id ∧ fault = .about .conflictingBorrow holder (some loan)) ∨
    (∀ loan ∈ s.ledger.overlapping holder, loan.id = id) ∧
      ((∃ e : StoreError, fault = e.fault holder) ∨
        fault = .about .missingWrite holder (s.ledger.blocking? holder .write)) := by
  rw [prepareHolder] at h
  split at h
  next loan hloan =>
    cases h
    obtain ⟨hmem, hother⟩ := List.mem_filter.mp (List.mem_of_getLast? hloan)
    exact Or.inl ⟨loan, hmem, bne_iff_ne.mp hother, rfl⟩
  next hfree =>
    refine Or.inr ⟨by simpa using hfree, ?_⟩
    split at h
    · exact checkAccess_write_eq_error (map_eq_error_iff.mp h)
    · split at h
      · split at h
        next e _ _ =>
          cases h
          exact Or.inl ⟨e, rfl⟩
        next => exact absurd h (by simp)
      · split at h
        next e _ _ =>
          cases h
          exact Or.inl ⟨e, rfl⟩
        next => exact absurd h (by simp)

end Session

end BorrowChecker
