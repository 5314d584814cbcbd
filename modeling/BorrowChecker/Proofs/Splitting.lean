import BorrowChecker.Proofs.History

/-!
# Splits and the history

How the arrays are split is read off the history: a split is in force if the scope that was the innermost one when the array
was split is still open (`split_in_force_iff`). An array may be split at one boundary several times, and only the first
split is recorded. Of the others none outlasts it, since the scope of the record is among those that were open when the
array was split again (`Registered.kept`).
-/

namespace BorrowChecker

/-! ## Splits in a history -/

/-- After `earlier`, an operation of the history has split the array at the boundary, and was accepted. -/
def SplitAfter (past earlier : List Event) (array : Place) (boundary : Nat) : Prop :=
  ∃ later e, past = later ++ e :: earlier ∧ e.op = .split array boundary ∧ e.verdict = .ok

/-- The array has been split at the boundary, and the scope that was the innermost one at the time is still open. -/
def SplitInForce (past : List Event) (array : Place) (boundary : Nat) : Prop :=
  ∃ earlier scope outer, SplitAfter past earlier array boundary ∧ openings earlier = scope :: outer ∧
    scope ∈ openings past

/-- The window is one of the halves that a split in force has made. -/
def WindowInForce (past : List Event) (array : Place) (lo : Nat) (hi : Option Nat) : Prop :=
  ∃ boundary, SplitInForce past array boundary ∧ ((lo = 0 ∧ hi = some boundary) ∨ (lo = boundary ∧ hi = none))

theorem splitAfter_cons_iff {e : Event} {past earlier : List Event} {array : Place} {boundary : Nat} :
    SplitAfter (e :: past) earlier array boundary ↔
      (earlier = past ∧ e.op = .split array boundary ∧ e.verdict = .ok) ∨ SplitAfter past earlier array boundary := by
  constructor
  · rintro ⟨later, e', hpast, hop, hok⟩
    cases later with
    | nil =>
      cases hpast
      exact Or.inl ⟨rfl, hop, hok⟩
    | cons _ later =>
      cases hpast
      exact Or.inr ⟨later, e', rfl, hop, hok⟩
  · rintro (⟨rfl, hop, hok⟩ | ⟨later, e', rfl, hop, hok⟩)
    · exact ⟨[], e, rfl, hop, hok⟩
    · exact ⟨e :: later, e', rfl, hop, hok⟩

theorem SplitAfter.suffix {past earlier : List Event} {array : Place} {boundary : Nat}
    (h : SplitAfter past earlier array boundary) : earlier <:+ past := by
  obtain ⟨later, e, rfl, -, -⟩ := h
  exact ⟨later ++ [e], by simp⟩

/-- The windows of a path, each with the array that the path in front of it leads to. -/
theorem Place.mem_windows_iff {p : Place} {w : Place.Window} : w ∈ p.windows ↔
    ∃ before after, p.path = before ++ .subslice w.lo w.hi :: after ∧ w.array = ⟨p.root, before⟩ := by
  rw [windows, List.mem_filterMap]
  constructor
  · rintro ⟨⟨e, n⟩, hmem, hw⟩
    have hn : p.path[n]? = some e := List.mem_zipIdx_iff_getElem?.mp hmem
    cases e with
    | subslice lo hi =>
      cases hw
      refine ⟨p.path.take n, p.path.drop (n + 1), ?_, rfl⟩
      obtain ⟨hlt, he⟩ := List.getElem?_eq_some_iff.mp hn
      change p.path = p.path.take n ++ .subslice lo hi :: p.path.drop (n + 1)
      rw [← he, ← List.drop_eq_getElem_cons hlt, List.take_append_drop]
    | _ => exact absurd hw (by simp)
  · rintro ⟨before, after, hpath, harray⟩
    refine ⟨(.subslice w.lo w.hi, before.length), List.mem_zipIdx_iff_getElem?.mpr ?_, ?_⟩
    · simp [hpath]
    · simp [truncate, hpath, ← harray]

theorem Splits.mem_insert {splits : Splits} {split other : Split} (h : other ∈ (splits.insert split).records) :
    other ∈ splits.records ∨ other = split := by
  rw [insert] at h
  split at h
  · exact Or.inl h
  · exact (List.mem_append.mp h).imp_right List.mem_singleton.mp

theorem Splits.subset_insert (splits : Splits) (split : Split) : splits.records ⊆ (splits.insert split).records := by
  rw [insert]
  split
  · exact List.Subset.refl _
  · exact List.subset_append_left _ _

/-- After a split there is a record of it, be it an older one. -/
theorem Splits.exists_mem_insert (splits : Splits) (split : Split) :
    ∃ other ∈ (splits.insert split).records, other.array = split.array ∧ other.boundary = split.boundary := by
  rw [insert]
  split
  next hany => simpa [List.any_eq_true] using hany
  next => exact ⟨split, List.mem_append_right _ (List.mem_singleton_self _), rfl, rfl⟩

/-- The record is one of a split in force, and bears the number of the scope that the split was made in. -/
def Split.MadeIn (past : List Event) (split : Split) : Prop :=
  ∃ earlier scope outer, SplitAfter past earlier split.array split.boundary ∧ openings earlier = scope :: outer ∧
    scope ∈ openings past ∧ scope.id = split.scope

theorem Split.MadeIn.cons {past : List Event} {split : Split} (h : split.MadeIn past) {e : Event}
    (hopen : ∀ scope ∈ openings past, scope.id = split.scope → scope ∈ openings (e :: past)) :
    split.MadeIn (e :: past) := by
  obtain ⟨earlier, scope, outer, hafter, hinner, hscope, hid⟩ := h
  exact ⟨earlier, scope, outer, splitAfter_cons_iff.mpr (Or.inr hafter), hinner, hopen scope hscope hid, hid⟩

namespace Session

variable {config : Config} {past : List Event} {s : Session}

/-! ## One operation -/

/-- An operation splits an array in the innermost scope, or closes the innermost scope with its splits, or changes neither
how arrays are split nor the scopes that are open, except for a new one. -/
theorem History.splits_cases (h : History config past s) (op : Operation) :
    (∃ array boundary, op = .split array boundary ∧ (s.step op).1 = .ok ∧
      openings (⟨s, op⟩ :: past) = openings past ∧
      (s.step op).2.splits = s.splits.insert ⟨array, boundary, s.currentScope⟩) ∨
    ((∀ array boundary, ¬ (op = .split array boundary ∧ (s.step op).1 = .ok)) ∧
      ((∃ scope outer, openings past = scope :: outer ∧ openings (⟨s, op⟩ :: past) = outer ∧
          (s.step op).2.splits = s.splits.discard scope.id) ∨
        (openings past ⊆ openings (⟨s, op⟩ :: past) ∧ (s.step op).2.splits = s.splits))) := by
  cases hrun : s.stopped with
  | true =>
    rw [step_of_stopped hrun, openings_of_stopped hrun]
    exact Or.inr ⟨fun _ _ hsplit => absurd hsplit.2 (by simp), Or.inr ⟨List.Subset.refl _, rfl⟩⟩
  | false =>
    rw [splits_step h.reachable hrun]
    cases op with
    | split array boundary =>
      have hok : (s.step (.split array boundary)).1 = .ok ↔ s.isLive array = true := by
        rw [step_ok_iff hrun, apply, guarded_unit_eq_none_iff, ← isLive_iff]
        rfl
      rw [splitsAfter, hok]
      cases hlive : s.isLive array with
      | true => exact Or.inl ⟨array, boundary, rfl, rfl, rfl, rfl⟩
      | false => exact Or.inr ⟨fun _ _ hsplit => absurd hsplit.2 Bool.false_ne_true, Or.inr ⟨List.Subset.refl _, rfl⟩⟩
    | scopeEnd id =>
      refine Or.inr ⟨fun _ _ hsplit => Operation.noConfusion hsplit.1, ?_⟩
      rw [openings_scopeEnd hrun, splitsAfter]
      cases hcloses : s.closes id with
      | true =>
        obtain ⟨scope, outer, hopenings, hscope⟩ := h.innermost
        refine Or.inl ⟨scope, outer, hopenings, by rw [hopenings]; rfl, ?_⟩
        rw [hscope, (closes_iff.mp hcloses).2]
        rfl
      | false => exact Or.inr ⟨List.Subset.refl _, rfl⟩
    | scopeBegin id =>
      refine Or.inr ⟨fun _ _ hsplit => Operation.noConfusion hsplit.1, Or.inr ⟨?_, rfl⟩⟩
      rw [openings_scopeBegin hrun]
      split
      · exact List.Subset.refl _
      · exact List.subset_cons_self _ _
    | _ => exact Or.inr ⟨fun _ _ hsplit => Operation.noConfusion hsplit.1, Or.inr ⟨List.Subset.refl _, rfl⟩⟩

/-! ## Records and splits -/

/-- The records are those of splits in force. Every split in force has a record, made in a scope that was open when the
array was split. -/
structure Registered (past : List Event) (s : Session) : Prop where
  made : ∀ split ∈ s.splits.records, split.MadeIn past
  kept : ∀ array boundary earlier scope outer, SplitAfter past earlier array boundary → openings earlier = scope :: outer →
    scope ∈ openings past → ∃ split ∈ s.splits.records, split.array = array ∧ split.boundary = boundary ∧
      split.scope ∈ (scope :: outer).map (·.id)

theorem Registered.made_step (hs : History config past s) (h : s.Registered past) (op : Operation) {split : Split}
    (hsplit : split ∈ (s.step op).2.splits.records) : split.MadeIn (⟨s, op⟩ :: past) := by
  rcases hs.splits_cases op with ⟨array, boundary, hop, hok, hopen, hsplits⟩ | ⟨-, hclose | ⟨hopen, hsplits⟩⟩
  · rw [hsplits] at hsplit
    rcases Splits.mem_insert hsplit with hmem | rfl
    · exact (h.made split hmem).cons fun scope hscope _ => hopen ▸ hscope
    · obtain ⟨scope, outer, hinner, hid⟩ := hs.innermost
      refine ⟨past, scope, outer, splitAfter_cons_iff.mpr (Or.inl ⟨rfl, hop, hok⟩), hinner, ?_, hid⟩
      rw [hopen, hinner]
      exact List.mem_cons_self
  · obtain ⟨closed, outer, hinner, hopen, hsplits⟩ := hclose
    rw [hsplits, Splits.discard, List.mem_filter, bne_iff_ne] at hsplit
    refine (h.made split hsplit.1).cons fun scope hscope hid => ?_
    rw [hinner, List.mem_cons] at hscope
    rcases hscope with rfl | hscope
    · exact absurd hid.symm hsplit.2
    · exact hopen ▸ hscope
  · rw [hsplits] at hsplit
    exact (h.made split hsplit).cons fun scope hscope _ => hopen hscope

theorem Registered.kept_step (hs : History config past s) (h : s.Registered past) (op : Operation) {array : Place}
    {boundary : Nat} {earlier : List Event} {scope : Opening} {outer : List Opening}
    (hafter : SplitAfter (⟨s, op⟩ :: past) earlier array boundary) (hinner : openings earlier = scope :: outer)
    (hopen : scope ∈ openings (⟨s, op⟩ :: past)) :
    ∃ split ∈ (s.step op).2.splits.records, split.array = array ∧ split.boundary = boundary ∧
      split.scope ∈ (scope :: outer).map (·.id) := by
  rcases splitAfter_cons_iff.mp hafter with ⟨rfl, hop, hok⟩ | hbefore
  · rcases hs.splits_cases op with ⟨array', boundary', hop', -, -, hsplits⟩ | ⟨hno, -⟩
    · cases hop.symm.trans hop'
      obtain ⟨split, hsplit, harray, hboundary⟩ := s.splits.exists_mem_insert ⟨array, boundary, s.currentScope⟩
      refine ⟨split, hsplits ▸ hsplit, harray, hboundary, ?_⟩
      rw [← hinner]
      rcases Splits.mem_insert hsplit with hmem | rfl
      · obtain ⟨_, made, _, _, _, hmade, hid⟩ := h.made split hmem
        exact hid ▸ List.mem_map_of_mem hmade
      · obtain ⟨innermost, _, hinnermost, hid⟩ := hs.innermost
        exact hid ▸ List.mem_map_of_mem (hinnermost ▸ List.mem_cons_self)
    · exact absurd ⟨hop, hok⟩ (hno array boundary)
  · obtain ⟨later, hlater⟩ := hbefore.suffix
    have hwas : scope ∈ openings past :=
      mem_openings_of_cons hopen (hinner ▸ List.mem_cons_self) hbefore.suffix
    obtain ⟨split, hsplit, harray, hboundary, hscope⟩ := h.kept _ _ _ _ _ hbefore hinner hwas
    refine ⟨split, ?_, harray, hboundary, hscope⟩
    rcases hs.splits_cases op with ⟨_, _, -, -, -, hsplits⟩ | ⟨-, hclose | ⟨-, hsplits⟩⟩
    · exact hsplits ▸ Splits.subset_insert _ _ hsplit
    · -- the record belongs to a scope around one that stays open, and none of these closes
      obtain ⟨closed, rest, hpast, hrest, hsplits⟩ := hclose
      subst hlater
      have hsuffix : scope :: outer <:+ openings (⟨s, op⟩ :: later ++ earlier) := openings_suffix hinner hopen
      rw [List.cons_append, hrest] at hsuffix
      have hnodup := hs.nodup_ids
      rw [hpast, List.map_cons, List.nodup_cons] at hnodup
      have hne : split.scope ≠ closed.id := fun hid =>
        hnodup.1 (hid ▸ (List.Sublist.map _ hsuffix.sublist).subset hscope)
      rw [hsplits, Splits.discard, List.mem_filter, bne_iff_ne]
      exact ⟨hsplit, hne⟩
    · exact hsplits ▸ hsplit

theorem History.registered (h : History config past s) : s.Registered past := by
  induction h with
  | start =>
    refine ⟨fun _ hsplit => absurd hsplit List.not_mem_nil, ?_⟩
    rintro _ _ _ _ _ ⟨later, e, hpast, -⟩
    exact absurd hpast (by simp)
  | step op hbefore ih =>
    exact ⟨fun _ hsplit => ih.made_step hbefore op hsplit,
      fun _ _ _ _ _ hafter hinner hopen => ih.kept_step hbefore op hafter hinner hopen⟩
  | paired ops _ ih => exact ⟨ih.made, ih.kept⟩

theorem History.has_iff (h : History config past s) (array : Place) (lo : Nat) (hi : Option Nat) :
    s.splits.has ⟨array, lo, hi⟩ = true ↔ WindowInForce past array lo hi := by
  rw [Splits.has_iff]
  constructor
  · rintro ⟨split, hsplit, rfl, hhalf⟩
    obtain ⟨earlier, scope, outer, hafter, hinner, hopen, -⟩ := h.registered.made split hsplit
    exact ⟨split.boundary, ⟨earlier, scope, outer, hafter, hinner, hopen⟩, hhalf⟩
  · rintro ⟨boundary, ⟨earlier, scope, outer, hafter, hinner, hopen⟩, hhalf⟩
    obtain ⟨split, hsplit, harray, rfl, -⟩ := h.registered.kept _ _ _ _ _ hafter hinner hopen
    exact ⟨split, hsplit, harray, hhalf⟩

/-- **A window can be named exactly while the scope that split the array there is open.** A window is a half of its array
if an operation of the history has split the array at that boundary, was accepted, and the scope that was the innermost
one then, not another with the same number, is still open. A place can be named if its variable is declared and this holds
for every window on the way, with the array that the path in front of the window leads to. -/
theorem split_in_force_iff (h : History config past s) :
    (∀ array lo hi, s.splits.has ⟨array, lo, hi⟩ = true ↔ WindowInForce past array lo hi) ∧
    ∀ p, s.checkPath p = .ok () ↔ (s.store.find? p.root).isSome = true ∧
      ∀ before lo hi after, p.path = before ++ .subslice lo hi :: after →
        WindowInForce past ⟨p.root, before⟩ lo hi := by
  refine ⟨h.has_iff, fun p => ?_⟩
  rw [checkPath_eq_ok_iff]
  refine and_congr_right fun _ => ⟨fun hall before lo hi after hpath => ?_, fun hall w hw => ?_⟩
  · exact (h.has_iff _ _ _).mp (hall _ (Place.mem_windows_iff.mpr ⟨before, after, hpath, rfl⟩))
  · obtain ⟨before, after, hpath, harray⟩ := Place.mem_windows_iff.mp hw
    refine (h.has_iff w.array w.lo w.hi).mpr ?_
    rw [harray]
    exact hall before w.lo w.hi after hpath

/-- An array is split twice at one boundary, the second time in a scope further in. The split outlasts the inner scope, and
is gone with the outer one, although a scope with its number is open again. -/
theorem resplit_in_force_until_outer_scope_closes :
    let array : Place := .var ⟨0⟩
    let ops : List Operation := [.bindFreshMut array, .scopeBegin ⟨1⟩, .split array 2, .scopeBegin ⟨2⟩, .split array 2,
      .scopeEnd ⟨2⟩]
    let s := (({} : Session).run ops).2
    let past := (({} : Session).paired ops).eventsAfter [] ops
    let more : List Operation := [.scopeEnd ⟨1⟩, .scopeBegin ⟨1⟩]
    (s.checkPath ⟨⟨0⟩, [.subslice 2 none, .index]⟩ = .ok () ∧ WindowInForce past array 2 none) ∧
    (openings (s.eventsAfter past more)).map (·.id) = (openings past).map (·.id) ∧
    (s.stepAll more).2.checkPath ⟨⟨0⟩, [.subslice 2 none, .index]⟩ ≠ .ok () ∧
    ¬ WindowInForce (s.eventsAfter past more) array 2 none := by
  intro array ops s past more
  have hs : History {} past s := History.run .start ops
  obtain ⟨-, hpath⟩ := split_in_force_iff hs
  obtain ⟨hhas, -⟩ := split_in_force_iff (hs.stepAll more)
  have hsplit : s.checkPath ⟨⟨0⟩, [.subslice 2 none, .index]⟩ = .ok () := by decide
  have hlost : ¬ (s.stepAll more).2.splits.has ⟨array, 2, none⟩ = true := by decide
  exact ⟨⟨hsplit, ((hpath _).mp hsplit).2 [] 2 none [.index] rfl⟩, by decide, by decide,
    fun hforce => hlost ((hhas array 2 none).mpr hforce)⟩

end Session

end BorrowChecker
