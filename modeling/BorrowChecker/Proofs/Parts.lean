import BorrowChecker.Proofs.Grant

/-!
# Parts of places

What overlaps a part overlaps the whole, so whatever has been moved out of a part or lent of it is missing from the whole
as well. A part therefore permits what the whole does, with two provisos. Where the value of the part owns nothing, the
ownership of the whole is not passed on. And behind a reference that a variable holds, the grant of the reference takes
the place of what is declared of the variable.
-/

namespace BorrowChecker

/-! ## Loans on parts -/

namespace Ledger

/-- Suppose that for every loan on `q` there is one of the same kind on `p`. What is not suspended on `p` is then not
suspended on `q`. -/
theorem unsuspended_of_overlapping {ledger ledger' : Ledger} {p q : Place} {needs : PermSet}
    (h : ∀ loan ∈ ledger'.overlapping q, ∃ other ∈ ledger.overlapping p, other.kind = loan.kind)
    (hneeds : needs ∩ ledger.suspended p = ∅) : needs ∩ ledger'.suspended q = ∅ := by
  rw [inter_suspended_eq_empty_iff] at hneeds ⊢
  intro loan hloan
  obtain ⟨other, hother, hkind⟩ := h loan hloan
  rw [← hkind]
  exact hneeds other hother

theorem overlapping_sublist {ledger : Ledger} {p q : Place} (h : p.isPrefixOf q = true) :
    (ledger.overlapping q).Sublist (ledger.overlapping p) :=
  List.monotone_filter_right ledger.loans fun _ => Place.overlaps_whole_of_part h

end Ledger

/-! ## What is declared of parts -/

/-- A declaration gives the same on a place and its parts, unless the place is the variable itself and the part lies
behind the reference that it holds. -/
theorem Declaration.gives_of_isPrefixOf {decl : Declaration} {p q : Place} (h : p.isPrefixOf q = true)
    (hheld : (p.isVar = true → decl.holder = none) ∨ q.path.head? ≠ some .deref) : decl.gives q = decl.gives p := by
  obtain ⟨-, rest, hpath⟩ := Place.isPrefixOf_iff.mp h
  cases hp : p.path with
  | nil =>
    have hwhole : decl.gives p = decl.perms := by
      rw [gives, hp]
      cases decl.holder <;> rfl
    rw [hwhole, gives]
    rcases hheld with hplain | hbefore
    · rw [hplain (Place.isVar_iff.mpr hp)]
    · split
      next hderef => exact absurd hderef hbefore
      next => rfl
  | cons e path =>
    -- both places are entered by the same first step
    rw [gives, gives, ← hpath, hp]
    rfl

namespace Store

variable {store : Store} {ledger : Ledger} {p q : Place} {perms : PermSet}

theorem live_of_isPrefixOf (h : p.isPrefixOf q = true) (hlive : store.Live p) : store.Live q := by
  rw [live_iff] at hlive ⊢
  refine ⟨Place.root_eq_of_isPrefixOf h ▸ hlive.1, fun r hr => ?_⟩
  rw [Bool.eq_false_iff]
  intro hoverlap
  have hwhole := Place.overlaps_whole_of_part h hoverlap
  rw [hlive.2 r hr] at hwhole
  exact Bool.noConfusion hwhole

/-- The permissions of a place are known if its variable is declared, and nothing may be done with it unless it is in
being. -/
theorem permissions_eq_ok_iff :
    store.permissions ledger p = .ok perms ↔
      (store.Live p ∧ ∃ declared, store.declared p = .ok declared ∧ perms = declared \ ledger.suspended p) ∨
      (¬ store.Live p ∧ (store.find? p.root).isSome = true ∧ perms = ∅) := by
  by_cases hlive : store.Live p
  · simp only [hlive, true_and, not_true_eq_false, false_and, or_false]
    rw [permissions_of_live hlive, map_eq_ok_iff]
    exact exists_congr fun declared => and_congr_right fun _ => eq_comm
  · simp only [hlive, false_and, not_false_eq_true, true_and, false_or]
    rw [live_iff_exists, not_exists] at hlive
    rw [permissions]
    cases hfind : store.find? p.root with
    | none => simp [checkLive, rootOf, hfind]
    | some decl =>
      have hmoved : store.checkLive p = .error .moved := by
        have hother := hlive decl
        rw [checkLive, rootOf, hfind] at hother ⊢
        dsimp only at hother ⊢
        split at hother
        next hgone => rw [if_pos hgone]
        next => exact absurd rfl hother
      simp [hmoved, eq_comm]

/-- What is declared of a place is declared of its parts, ownership only of those whose value owns something. -/
theorem declared_of_isPrefixOf {decl : Declaration} {needs : PermSet} (h : p.isPrefixOf q = true)
    (hfind : store.find? p.root = some decl)
    (hheld : (p.isVar = true → decl.holder = none) ∨ q.path.head? ≠ some .deref)
    (hdeclared : store.declared p = .ok perms) (hneeds : needs ⊆ perms)
    (hown : (store.factsUnder decl q).owning = true ∨ needs ∩ .own = ∅) :
    ∃ inner, store.declared q = .ok inner ∧ needs ⊆ inner := by
  have hgives : needs ⊆ decl.gives q := by
    rw [decl.gives_of_isPrefixOf h hheld]
    rw [declared_of_find? hfind] at hdeclared
    cases hdeclared
    split at hneeds
    · exact hneeds
    · exact PermSet.subset_trans hneeds (PermSet.sdiff_subset _ _)
  refine ⟨_, declared_of_find? (Place.root_eq_of_isPrefixOf h ▸ hfind), ?_⟩
  split
  next => exact hgives
  next hplain => exact PermSet.subset_sdiff_iff.mpr ⟨hgives, hown.resolve_left hplain⟩

end Store

namespace Session

variable {s : Session} {p q : Place}

theorem permissions?_eq_some_iff {perms : PermSet} :
    s.permissions? p = some perms ↔ s.store.permissions s.ledger p = .ok perms := by
  rw [permissions?, Registry.permissions]
  change (s.store.permissions s.ledger p).toOption = some perms ↔ _
  cases s.store.permissions s.ledger p with
  | error e => simp [Except.toOption]
  | ok perms' => simp [Except.toOption]

/-- Of a declared variable every part has permissions, if only the empty set of them. -/
theorem isSome_permissions?_iff : (s.permissions? p).isSome = true ↔ (s.store.find? p.root).isSome = true := by
  rw [Option.isSome_iff_exists]
  simp only [permissions?_eq_some_iff, Store.permissions_eq_ok_iff]
  by_cases hlive : s.store.Live p
  · obtain ⟨decl, hfind, -⟩ := Store.alive_iff.mp (Store.live_iff.mp hlive).1
    obtain ⟨declared, hdeclared⟩ := Store.declared_of_live hlive
    exact iff_of_true ⟨_, Or.inl ⟨hlive, declared, hdeclared, rfl⟩⟩ (Option.isSome_of_eq_some hfind)
  · simp [hlive]

theorem permits_of_isPrefixOf {perms : PermSet} (h : p.isPrefixOf q = true)
    (hheld : s.heldKind? p = none ∨ q.path.head? ≠ some .deref) (hperms : s.permissions? p = some perms) :
    ∃ inner, s.permissions? q = some inner ∧
      ∀ needs, needs ⊆ perms → (s.factsOf q).owning = true ∨ needs ∩ .own = ∅ → needs ⊆ inner := by
  have hroot : p.root = q.root := Place.root_eq_of_isPrefixOf h
  rw [permissions?_eq_some_iff, Store.permissions_eq_ok_iff] at hperms
  rcases hperms with ⟨hlive, declared, hdeclared, rfl⟩ | ⟨-, hknown, rfl⟩
  · obtain ⟨decl, hfind, -⟩ := Store.alive_iff.mp (Store.live_iff.mp hlive).1
    have hlive' : s.store.Live q := Store.live_of_isPrefixOf h hlive
    obtain ⟨inner, hinner⟩ := Store.declared_of_live hlive'
    refine ⟨inner \ s.ledger.suspended q, ?_, fun needs hneeds hown => ?_⟩
    · rw [permissions?_eq_some_iff, Store.permissions_eq_ok_iff]
      exact Or.inl ⟨hlive', inner, hinner, rfl⟩
    · obtain ⟨hgranted, hfree⟩ := PermSet.subset_sdiff_iff.mp hneeds
      have hholder : (p.isVar = true → decl.holder = none) ∨ q.path.head? ≠ some .deref := by
        refine hheld.imp_left fun hnone hvar => ?_
        rwa [heldKind?, if_pos hvar, hfind] at hnone
      have hfacts : s.factsOf q = s.store.factsUnder decl q := by
        rw [factsOf, Store.factsOf?, ← hroot, hfind]
        rfl
      rw [hfacts] at hown
      obtain ⟨inner', hinner', hsubset⟩ := Store.declared_of_isPrefixOf h hfind hholder hdeclared hgranted hown
      cases hinner.symm.trans hinner'
      refine PermSet.subset_sdiff_iff.mpr ⟨hsubset, Ledger.unsuspended_of_overlapping (fun loan hloan => ?_) hfree⟩
      exact ⟨loan, (Ledger.overlapping_sublist h).subset hloan, rfl⟩
  · -- of a whole that is not in being nothing is permitted
    obtain ⟨inner, hinner⟩ := Option.isSome_iff_exists.mp (isSome_permissions?_iff.mpr (hroot ▸ hknown))
    exact ⟨inner, hinner, fun needs hneeds _ => PermSet.subset_trans hneeds (PermSet.empty_subset inner)⟩

/-- **A part is at least as accessible as the whole.** All that overlaps the part overlaps the whole, so it is in being if
the whole is and every loan on it is one on the whole. What the whole permits, ownership aside, the part permits, unless
the whole is a variable that holds a reference and the part lies behind the reference. Ownership comes with it if the value
of the part owns something. -/
theorem part_permits_what_whole_does (s : Session) (p q : Place) (h : p.isPrefixOf q = true) :
    (∀ r : Place, r.overlaps q = true → r.overlaps p = true) ∧
    (s.store.Live p → s.store.Live q) ∧ (s.ledger.overlapping q).Sublist (s.ledger.overlapping p) ∧
    (s.heldKind? p = none ∨ q.path.head? ≠ some .deref → ∀ perms, s.permissions? p = some perms →
      ∃ inner, s.permissions? q = some inner ∧ perms \ .own ⊆ inner ∧
        ((s.factsOf q).owning = true → perms ⊆ inner)) := by
  refine ⟨fun _ => Place.overlaps_whole_of_part h, Store.live_of_isPrefixOf h, Ledger.overlapping_sublist h,
    fun hheld perms hperms => ?_⟩
  obtain ⟨inner, hinner, hpermits⟩ := permits_of_isPrefixOf h hheld hperms
  have hrest : perms \ .own ⊆ inner :=
    hpermits _ (PermSet.sdiff_subset perms .own) (Or.inr (PermSet.sdiff_inter_self perms .own))
  exact ⟨inner, hinner, hrest, fun howning => hpermits perms (PermSet.subset_refl perms) (Or.inl howning)⟩

/-- Two fields of a record, of which one is lent to be read. The record can be read only, and so can what lies inside the
field that is lent. The other field can be written and moved out as well. -/
theorem fields_beside_loan_permit :
    let s := (({} : Session).stepAll [.bindFreshMut (.var ⟨0⟩), .bindFreshMut (.var ⟨1⟩),
      .borrowShared ⟨⟨0⟩, [.field ⟨2⟩]⟩ (.var ⟨1⟩) (.scope .root)]).2
    let lent : Place := ⟨⟨0⟩, [.field ⟨2⟩, .deref]⟩
    s.permissions? (.var ⟨0⟩) = some .read ∧ (∃ inner, s.permissions? lent = some inner ∧ .read ⊆ inner) ∧
    s.permissions? ⟨⟨0⟩, [.field ⟨3⟩]⟩ = some .all ∧ s.permissions? lent = some .read := by
  intro s lent
  have hinside : (Place.var ⟨0⟩).isPrefixOf lent = true := by decide
  have hwhole : s.permissions? (.var ⟨0⟩) = some .read := by decide
  obtain ⟨-, -, -, hpermits⟩ := part_permits_what_whole_does s (.var ⟨0⟩) lent hinside
  obtain ⟨inner, hinner, hread, -⟩ := hpermits (Or.inl (by decide)) .read hwhole
  have hown : PermSet.read \ .own = .read := by decide
  exact ⟨hwhole, ⟨inner, hinner, hown ▸ hread⟩, by decide, by decide⟩

/-- A mutable variable with a shared reference can be written. What lies behind the reference cannot. -/
example :
    let s := (({} : Session).stepAll [.bindFreshMut (.var ⟨0⟩), .bindFreshMut (.var ⟨1⟩),
      .borrowShared (.var ⟨0⟩) (.var ⟨1⟩) (.scope .root)]).2
    s.heldKind? (.var ⟨1⟩) = some .shared ∧ s.permissions? (.var ⟨1⟩) = some .readWrite ∧
    s.permissions? ⟨⟨1⟩, [.deref]⟩ = some .read := by
  decide

end Session

end BorrowChecker
