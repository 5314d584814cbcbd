import BorrowChecker.Proofs.Scoping
import BorrowChecker.Proofs.Turnover

/-!
# Where a value arrives

A place that gets a value can be used from then on, apart from three cases. A binding vacates its source last, and the
source may lie inside the target, beside a part that has been moved out before. The store does not look at the windows on
the way to a target, and the array may not be split there any more. And a variable that is alive takes a reference
without anything else becoming of it, so it still lacks the parts that were moved out of it.
-/

namespace BorrowChecker

theorem Place.windows_of_isVar {p : Place} (h : p.isVar = true) : p.windows = [] := by
  rw [windows, isVar_iff.mp h]
  rfl

/-- All of a place is in being once it has been declared. -/
theorem Store.live_self_of_declare {store store' : Store} {p : Place} {request : DeclareRequest}
    (h : store.declare p request = .ok store') : store'.Live p := by
  refine live_iff.mpr ⟨alive_root_of_declare h, fun r hr => ?_⟩
  rcases declare_eq_ok_iff.mp h with ⟨hvar, hdeclare⟩ | ⟨-, hput⟩
  · obtain ⟨-, rfl⟩ := declareVar_eq_ok_iff.mp hdeclare
    have hroot : r.root ≠ p.root := bne_iff_ne.mp (List.mem_filter.mp hr).2
    rw [Place.overlaps_comm, Place.overlaps_of_isVar hvar, beq_eq_false_iff_ne]
    exact hroot.symm
  · -- what was moved out inside the part is back, and nothing else overlaps it
    obtain ⟨-, hinside, -, rfl⟩ := reinitialise_eq_ok_iff.mp hput
    obtain ⟨hmoved, houtside⟩ := List.mem_filter.mp hr
    rw [Place.overlaps_comm, Bool.eq_false_iff]
    intro hoverlap
    rw [hinside r hmoved hoverlap] at houtside
    exact Bool.noConfusion houtside

theorem Registry.splits_relocate (r : Registry) (source target : Place) (isReference : Bool) :
    (r.relocate source target isReference).splits = r.splits := by
  rw [relocate, splits_withdraw]
  split <;> rfl

namespace Session

variable {s : Session} {p : Place}

theorem isLive_iff_windows : s.isLive p = true ↔ p.windows.all s.splits.has = true ∧ s.store.Live p := by
  rw [isLive_iff, checkLive_eq_ok_iff]
  refine and_congr_left fun hlive => ?_
  obtain ⟨decl, hfind, -⟩ := Store.alive_iff.mp (Store.live_iff.mp hlive).1
  rw [checkPath, hfind, Option.isSome_some, Bool.true_and]
  split
  next hwindows => simp [hwindows]
  next hwindows => simp [hwindows]

theorem isLive_iff_of_isVar (hvar : p.isVar = true) : s.isLive p = true ↔ s.store.Live p := by
  rw [isLive_iff_windows, Place.windows_of_isVar hvar]
  exact and_iff_right rfl

/-! ## Bindings -/

variable {target : Place} {init : Init} {mutable : Bool} {perms : PermSet} {facts : TypeFacts}

/-- The target of a binding is in being unless it overlaps the source of the value. -/
theorem live_target_iff_of_bind (hnone : (s.bind target init mutable perms facts).1 = none) :
    (s.bind target init mutable perms facts).2.store.Live target ↔
      ∀ source, s.movedFrom? init = some source → source.overlaps target = false := by
  obtain ⟨moved, store, hinit, hdeclare, hbind⟩ := bind_accepted hnone
  have hlive := Store.live_self_of_declare hdeclare
  rw [hbind, movedFrom?_of_checkInit hinit]
  cases moved with
  | none => exact iff_of_true hlive fun source hsource => absurd hsource (by simp)
  | some source =>
    change (Registry.relocate _ source target _).store.Live target ↔ _
    rw [Registry.store_relocate, Store.live_retire_iff, and_iff_right hlive]
    simp

theorem splits_bind (hnone : (s.bind target init mutable perms facts).1 = none) :
    (s.bind target init mutable perms facts).2.splits = s.splits := by
  obtain ⟨moved, store, -, -, hbind⟩ := bind_accepted hnone
  rw [hbind]
  cases moved with
  | none => rfl
  | some source => exact Registry.splits_relocate _ source target _

theorem isLive_target_iff_of_bind (hnone : (s.bind target init mutable perms facts).1 = none) :
    (s.bind target init mutable perms facts).2.isLive target = true ↔
      target.windows.all s.splits.has = true ∧
        ∀ source, s.movedFrom? init = some source → source.overlaps target = false := by
  rw [isLive_iff_windows, splits_bind hnone, live_target_iff_of_bind hnone]

/-! ## References -/

variable {source holder : Place} {kind : BorrowKind} {region : Region}

theorem isLive_holder_iff_of_borrow (hnone : (s.borrow source kind holder region).1 = none) :
    (s.borrow source kind holder region).2.isLive holder = true ↔
      (holder.isVar = true → s.rootLive holder = true → s.isLive holder = true) := by
  obtain ⟨stop, id, ledger, -, -, hprepare⟩ := borrow_accepted hnone
  rcases (prepareHolder_cases hprepare).2 with ⟨hpart, hwrite, ht⟩ | ⟨hvar, store, hassign, ht⟩ |
    ⟨hvar, store, hdeclare, ht⟩
  · -- a part has to be writable, and so usable
    rw [ht]
    refine iff_of_true ?_ fun hvar => Bool.noConfusion (hpart.symm.trans hvar)
    exact isLive_iff.mpr (checkAccess_eq_ok_iff.mp hwrite).1
  · obtain ⟨⟨decl, hfind, hlive, -⟩, -⟩ := Store.assignHolder_eq_ok_iff.mp hassign
    have halive : s.rootLive holder = true := Store.alive_iff.mpr ⟨decl, hfind, hlive⟩
    rw [isLive_iff_of_isVar hvar, isLive_iff_of_isVar hvar, ht]
    simp only [hvar, halive, true_imp_iff]
    exact Store.live_congr (fun x => Store.alive_assignHolder hassign) (Store.retired_of_assignHolder hassign)
  · rw [isLive_iff_of_isVar hvar, ht]
    refine iff_of_true (Store.live_self_of_declare hdeclare) fun _ halive => ?_
    rcases Store.declare_eq_ok_iff.mp hdeclare with ⟨-, hdead⟩ | ⟨hpart, -⟩
    · exact absurd halive (Store.declareVar_eq_ok_iff.mp hdead).1
    · exact Bool.noConfusion (hpart.symm.trans hvar)

/-! ## Steps -/

/-- **What has been given a value can be used.** For a binding this takes that the windows on the way to its target are
halves of arrays that are still split, and that the value does not come out of the target itself. For a borrow it takes
that a variable that is alive already and is to hold the reference is in being as a whole. -/
theorem destination_usable_iff (s : Session) :
    (∀ target init mutable perms facts, (s.step (.bind target init mutable perms facts)).1 = .ok →
      ((s.step (.bind target init mutable perms facts)).2.isLive target = true ↔
        target.windows.all s.splits.has = true ∧
          ∀ source, s.movedFrom? init = some source → source.overlaps target = false)) ∧
    (∀ source kind holder region, (s.step (.borrow source kind holder region)).1 = .ok →
      ((s.step (.borrow source kind holder region)).2.isLive holder = true ↔
        (holder.isVar = true → s.rootLive holder = true → s.isLive holder = true))) := by
  refine ⟨fun target init mutable perms facts hok => ?_, fun source kind holder region hok => ?_⟩
  · obtain ⟨-, hnone, hstep⟩ := step_accepted hok
    rw [hstep]
    exact isLive_target_iff_of_bind hnone
  · obtain ⟨-, hnone, hstep⟩ := step_accepted hok
    rw [hstep]
    exact isLive_holder_iff_of_borrow hnone

/-- A field that was moved out is given the value of another variable, and a mutable variable is given a reference. -/
theorem destinations_usable_beside_moved :
    let s := (({} : Session).stepAll [.bindFreshMut (.var ⟨0⟩), .bindFreshMut (.var ⟨1⟩), .bindFresh (.var ⟨2⟩),
      .move ⟨⟨0⟩, [.field ⟨3⟩]⟩]).2
    let bound := s.step (.bindMove ⟨⟨0⟩, [.field ⟨3⟩]⟩ (.var ⟨2⟩))
    let lent := s.step (.borrowShared ⟨⟨0⟩, [.field ⟨4⟩]⟩ (.var ⟨1⟩) (.scope .root))
    (bound.1 = .ok ∧ bound.2.isLive ⟨⟨0⟩, [.field ⟨3⟩]⟩ = true) ∧ (lent.1 = .ok ∧ lent.2.isLive (.var ⟨1⟩) = true) := by
  intro s bound lent
  obtain ⟨hbind, hborrow⟩ := destination_usable_iff s
  have hbound : bound.1 = .ok := by decide
  have hlent : lent.1 = .ok := by decide
  refine ⟨⟨hbound, (hbind _ _ _ _ _ hbound).mpr ⟨by decide, ?_⟩⟩, hlent, (hborrow _ _ _ _ hlent).mpr ?_⟩
  · intro source hsource
    cases hsource
    decide
  · intro _ _
    decide

/-- A variable lacks the field that was moved out of it after it has been given a reference. A record that lacks one
field is given the value of its other field, and lacks that one. A half of an array that is not split any more is given
a value. -/
theorem unusable_destinations :
    (let s := (({} : Session).stepAll [.bindFreshMut (.var ⟨0⟩), .bindFreshMut (.var ⟨1⟩), .move ⟨⟨1⟩, [.field ⟨2⟩]⟩]).2
     let t := s.step (.borrowShared (.var ⟨0⟩) (.var ⟨1⟩) (.scope .root))
     t.1 = .ok ∧ t.2.isLive (.var ⟨1⟩) = false) ∧
    (let s := (({} : Session).stepAll [.bindFreshMut (.var ⟨0⟩), .move ⟨⟨0⟩, [.field ⟨1⟩, .field ⟨2⟩]⟩]).2
     let t := s.step (.bindMove ⟨⟨0⟩, [.field ⟨1⟩]⟩ ⟨⟨0⟩, [.field ⟨1⟩, .field ⟨3⟩]⟩)
     t.1 = .ok ∧ t.2.isLive ⟨⟨0⟩, [.field ⟨1⟩]⟩ = false) ∧
    (let s := (({} : Session).stepAll [.bindFreshMut (.var ⟨0⟩), .scopeBegin ⟨1⟩, .split (.var ⟨0⟩) 2,
       .move ⟨⟨0⟩, [.subslice 0 (some 2)]⟩, .scopeEnd ⟨1⟩]).2
     let t := s.step (.bindFresh ⟨⟨0⟩, [.subslice 0 (some 2)]⟩)
     t.1 = .ok ∧ t.2.isLive ⟨⟨0⟩, [.subslice 0 (some 2)]⟩ = false) := by
  decide

end Session

end BorrowChecker
