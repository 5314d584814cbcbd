import BorrowChecker.Proofs.Ledger
import BorrowChecker.Proofs.Store
import BorrowChecker.Session.Check

/-!
# What the rules of access ask for

For each rule, exactly when it lets an operation pass, and what it reports otherwise. Everything that is moved out or
dropped has passed a rule that leaves no loan on it: a move looks for loans itself, and a drop needs ownership, which
every loan suspends.
-/

namespace BorrowChecker

/-- A check made of two parts passes if the first part does and the second does on its answer. -/
theorem bind_eq_ok_iff {ε α β : Type} {x : Except ε α} {f : α → Except ε β} {b : β} :
    (x >>= f) = .ok b ↔ ∃ a, x = .ok a ∧ f a = .ok b := by
  cases x with
  | error e => simp [bind, Except.bind]
  | ok a => simp [bind, Except.bind]

theorem seq_eq_ok_iff {ε β : Type} {x : Except ε Unit} {f : Unit → Except ε β} {b : β} :
    (x >>= f) = .ok b ↔ x = .ok () ∧ f () = .ok b := by
  rw [bind_eq_ok_iff]
  exact ⟨fun ⟨(), h⟩ => h, fun h => ⟨(), h⟩⟩

/-- The second part of a check is to blame only if the first part has passed. -/
theorem bind_eq_error {ε α β : Type} {x : Except ε α} {f : α → Except ε β} {e : ε} (h : (x >>= f) = .error e) :
    x = .error e ∨ ∃ a, x = .ok a ∧ f a = .error e := by
  cases x with
  | error e' =>
    cases h
    exact Or.inl rfl
  | ok a => exact Or.inr ⟨a, rfl, h⟩

theorem map_eq_ok_iff {ε α β : Type} {x : Except ε α} {f : α → β} {b : β} :
    x.map f = .ok b ↔ ∃ a, x = .ok a ∧ f a = b := by
  cases x with
  | error e => simp [Except.map]
  | ok a => simp [Except.map]

namespace Session

variable {s : Session} {p : Place}

/-! ## Accesses -/

theorem checkPath_eq_ok_iff :
    s.checkPath p = .ok () ↔ (s.store.find? p.root).isSome = true ∧ ∀ w ∈ p.windows, s.splits.has w = true := by
  rw [checkPath, ← List.all_eq_true, ← Bool.and_eq_true]
  split
  next h => simp [h]
  next h => simp [h]

theorem checkLive_eq_ok_iff : s.checkLive p = .ok () ↔ s.checkPath p = .ok () ∧ s.store.Live p := by
  rw [checkLive, seq_eq_ok_iff, Store.live_iff_exists]
  cases s.store.checkLive p with
  | error e => simp
  | ok decl => simp

theorem isLive_iff : s.isLive p = true ↔ s.checkLive p = .ok () := by
  rw [isLive]
  cases s.checkLive p with
  | error fault => simp [Except.isOk, Except.toBool]
  | ok _ => simp [Except.isOk, Except.toBool]

theorem permissionsAt_eq_ok_iff {perms : PermSet} :
    s.permissionsAt p = .ok perms ↔ s.registry.permissions p = .ok perms := by
  rw [permissionsAt]
  cases s.registry.permissions p with
  | error e => simp [Except.mapError]
  | ok perms' => simp [Except.mapError]

theorem checkAccess_eq_ok_iff {needs : PermSet} :
    s.checkAccess p needs = .ok () ↔
      s.checkLive p = .ok () ∧ ∃ perms, s.registry.permissions p = .ok perms ∧ needs ⊆ perms := by
  rw [checkAccess, seq_eq_ok_iff]
  simp only [bind_eq_ok_iff, permissionsAt_eq_ok_iff]
  refine and_congr Iff.rfl (exists_congr fun perms => and_congr Iff.rfl ?_)
  have hmissing : perms.missing needs = ∅ ↔ needs ⊆ perms := PermSet.missing_eq_empty_iff
  by_cases hneeds : needs ⊆ perms
  · rw [if_pos (hmissing.mpr hneeds)]
    exact iff_of_true rfl hneeds
  · rw [if_neg fun h => hneeds (hmissing.mp h)]
    refine iff_of_false ?_ hneeds
    split
    · split <;> simp
    · split <;> simp

/-- The rule by what is declared and lent. -/
theorem checkAccess_eq_ok_iff_lent {needs : PermSet} :
    s.checkAccess p needs = .ok () ↔
      s.checkLive p = .ok () ∧ ∃ declared, s.store.declared p = .ok declared ∧ needs ⊆ declared ∧
        (.read ⊆ needs → ∀ loan ∈ s.ledger.overlapping p, loan.kind = .shared) ∧
        (.write ⊆ needs ∨ .own ⊆ needs → s.ledger.overlapping p = []) := by
  rw [checkAccess_eq_ok_iff]
  refine and_congr_right fun hlive => ?_
  have hperms : s.registry.permissions p = (s.store.declared p).map (· \ s.ledger.suspended p) :=
    Store.permissions_of_live (checkLive_eq_ok_iff.mp hlive).2 s.ledger
  simp only [hperms, map_eq_ok_iff]
  constructor
  · rintro ⟨_, ⟨declared, hdeclared, rfl⟩, hneeds⟩
    exact ⟨declared, hdeclared, Ledger.subset_sdiff_suspended_iff.mp hneeds⟩
  · rintro ⟨declared, hdeclared, hneeds⟩
    exact ⟨_, ⟨declared, hdeclared, rfl⟩, Ledger.subset_sdiff_suspended_iff.mpr hneeds⟩

theorem checkMove_eq_ok_iff :
    s.checkMove p = .ok () ↔
      s.checkAccess p (if (s.factsOf p).owning then .own else .read) = .ok () ∧ s.ledger.overlapping p = [] := by
  rw [checkMove, seq_eq_ok_iff, ← List.getLast?_eq_none_iff]
  cases (s.ledger.overlapping p).getLast? with
  | none => simp
  | some loan => simp

theorem checkCopy_eq_ok_iff {moves : Bool} :
    s.checkCopy p = .ok moves ↔
      ((s.factsOf p).duplicable = true ∧ moves = false ∧ s.checkAccess p .read = .ok ()) ∨
      ((s.factsOf p).duplicable = false ∧ moves = true ∧ s.checkMove p = .ok ()) := by
  rw [checkCopy]
  cases hdup : (s.factsOf p).duplicable with
  | true =>
    rw [if_pos rfl, seq_eq_ok_iff, Except.ok.injEq, and_comm, eq_comm]
    simp
  | false =>
    rw [if_neg Bool.false_ne_true, seq_eq_ok_iff, Except.ok.injEq, and_comm, eq_comm]
    simp

theorem checkDrop_eq_ok_iff :
    s.checkDrop p = .ok () ↔
      s.checkPath p = .ok () ∧ (s.factsOf p).owning = true ∧ s.checkAccess p .own = .ok () := by
  rw [checkDrop, seq_eq_ok_iff]
  split
  next h => simp [h]
  next h => simp [h]

/-! ## Loans -/

theorem checkBorrow_eq_ok_iff {kind : BorrowKind} {region : Region} {stop : Nat} :
    s.checkBorrow p kind region = .ok stop ↔
      s.regionStop? region = some stop ∧ s.checkLive p = .ok () ∧ s.ledger.obstacle? p kind = none ∧
      ∃ perms, s.registry.permissions p = .ok perms ∧
        ¬ .read ⊆ perms.missing kind.requires ∧ ¬ .write ⊆ perms.missing kind.requires := by
  rw [checkBorrow]
  cases s.regionStop? region with
  | none => simp
  | some last =>
    rw [seq_eq_ok_iff]
    cases s.ledger.obstacle? p kind with
    | some loan => simp
    | none =>
      simp only [bind_eq_ok_iff, permissionsAt_eq_ok_iff, Option.some.injEq, true_and]
      rw [and_left_comm]
      refine and_congr Iff.rfl ?_
      rw [← exists_and_left]
      refine exists_congr fun perms => ?_
      rw [and_left_comm]
      refine and_congr Iff.rfl ?_
      split_ifs with hread hwrite
      · simp [hread]
      · simp [hwrite]
      · simp [hread, hwrite]

/-- What can be lent permits all that the reference will give. -/
theorem checkAccess_of_checkBorrow {kind : BorrowKind} {region : Region} {stop : Nat}
    (h : s.checkBorrow p kind region = .ok stop) : s.checkAccess p kind.requires = .ok () := by
  obtain ⟨-, hlive, -, perms, hperms, hread, hwrite⟩ := checkBorrow_eq_ok_iff.mp h
  refine checkAccess_eq_ok_iff.mpr ⟨hlive, perms, hperms, ?_⟩
  rw [PermSet.isSingle_read.subset_missing_iff, not_and_not_right] at hread
  rw [PermSet.isSingle_write.subset_missing_iff, not_and_not_right] at hwrite
  cases kind with
  | shared => exact hread (by decide)
  | exclusive => exact PermSet.union_subset (hread (by decide)) (hwrite (by decide))

/-! ## What is given up is not lent -/

theorem overlapping_of_checkDrop (h : s.checkDrop p = .ok ()) : s.ledger.overlapping p = [] := by
  obtain ⟨-, -, haccess⟩ := checkDrop_eq_ok_iff.mp h
  obtain ⟨-, declared, -, -, -, hunlent⟩ := checkAccess_eq_ok_iff_lent.mp haccess
  exact hunlent (Or.inr (by decide))

theorem overlapping_of_checkCopy (h : s.checkCopy p = .ok true) : s.ledger.overlapping p = [] := by
  rcases checkCopy_eq_ok_iff.mp h with ⟨-, hmoves, -⟩ | ⟨-, -, hmove⟩
  · exact Bool.noConfusion hmoves
  · exact (checkMove_eq_ok_iff.mp hmove).2

end Session

end BorrowChecker
