import BorrowChecker.Proofs.Grant

/-!
# Putting a value back

What is known of the type of a part is handed down along its path: a part without an entry of its own has the facts of
the place that it is a step out of (`factsUnder_project`). So an entry that repeats what a part has inherited tells nothing
new, about the part or about anything inside it (`factsUnder_setFacts_inherited`).

A part that is moved out and given a value with the same facts again is therefore as before, and so is everything else
(`moved_out_and_back`). Whatever else has been moved out does not overlap the part, which was in being, so it neither
stands in the way nor comes back along with the part. This takes that the part overlaps itself. What has been moved out
inside a window without elements does not overlap the window, and does come back with it.
-/

namespace BorrowChecker

/-! ## Entries that tell nothing new -/

namespace Store

variable {store : Store} {decl : Declaration} {p q : Place} {facts : TypeFacts}

theorem checkLive_setFacts (q : Place) : (store.setFacts p facts).checkLive q = store.checkLive q := rfl

/-- Entering for a part what it has inherited changes the facts of no place. -/
theorem factsUnder_setFacts_inherited (p q : Place) :
    (store.setFacts p (store.factsUnder decl p)).factsUnder decl q = store.factsUnder decl q := by
  induction q using Place.stepInduction with
  | var x => rfl
  | project q e ih =>
    rw [factsUnder_project, factsUnder_project, ih]
    by_cases h : q.project e = p
    · subst h
      rw [factsAt?_setFacts_self (Place.isVar_project q e), factsUnder_project]
      rfl
    · rw [factsAt?_setFacts_of_ne h]

theorem factsUnder_of_inherited (hfacts : store.factsOf? p = some facts) (hfind : store.find? q.root = some decl) :
    (store.setFacts p facts).factsUnder decl q = store.factsUnder decl q := by
  by_cases hroot : q.root = p.root
  · rw [factsOf?, ← hroot, hfind] at hfacts
    cases hfacts
    exact factsUnder_setFacts_inherited p q
  · exact (agree_setFacts facts hroot).factsUnder decl

theorem factsOf?_of_inherited (hfacts : store.factsOf? p = some facts) (q : Place) :
    (store.setFacts p facts).factsOf? q = store.factsOf? q := by
  cases hfind : store.find? q.root with
  | none => simp only [factsOf?, find?_setFacts, hfind, Option.map_none]
  | some decl =>
    simp only [factsOf?, find?_setFacts, hfind, Option.map_some, factsUnder_of_inherited hfacts hfind]

theorem declared_of_inherited (hfacts : store.factsOf? p = some facts) (q : Place) :
    (store.setFacts p facts).declared q = store.declared q := by
  cases hfind : store.find? q.root with
  | none => simp only [declared, rootOf, find?_setFacts, hfind]
  | some decl =>
    rw [declared_of_find? hfind, declared_of_find? ((find?_setFacts _).trans hfind),
      factsUnder_of_inherited hfacts hfind]

/-! ## Out and back -/

/-- What has been moved out elsewhere neither overlaps a part in being nor lies inside it. -/
theorem apart_of_live (hself : p.overlaps p = true) (hlive : store.Live p) {r : Place} (hr : r ∈ store.retired) :
    p.overlaps r = false ∧ p.isPrefixOf r = false := by
  have hapart : r.overlaps p = false := (live_iff.mp hlive).2 r hr
  refine ⟨Place.overlaps_comm r p ▸ hapart, ?_⟩
  rw [Bool.eq_false_iff]
  intro hinside
  rw [Place.overlaps_of_isPrefixOf hinside, hself] at hapart
  exact Bool.noConfusion hapart

theorem retire_of_part (hpart : p.isVar = false) : store.retire p = { store with retired := store.retired.insert p } := by
  rw [retire, hpart]
  rfl

/-- A part that is in being and writable can be given a value after it has been moved out. Nothing else of what has been
moved out comes back with it. -/
theorem reinitialise_retire (hpart : p.isVar = false) (hself : p.overlaps p = true)
    (hlive : store.checkLive p = .ok decl) (hwrite : PermSet.write ⊆ decl.perms) (request : DeclareRequest) :
    (store.retire p).reinitialise p request = .ok (store.setFacts p request.facts) := by
  obtain ⟨hfind, halive, -⟩ := checkLive_eq_ok_iff.mp hlive
  have hapart : ∀ r ∈ store.retired, p.overlaps r = false ∧ p.isPrefixOf r = false :=
    fun r hr => apart_of_live hself (live_iff_exists.mpr ⟨decl, hlive⟩) hr
  have hin : p ∉ store.retired := fun hp => Bool.noConfusion ((hapart p hp).1.symm.trans hself)
  have hretired : (store.retired.insert p).filter (!p.isPrefixOf ·) = store.retired := by
    have hothers : store.retired.filter (!p.isPrefixOf ·) = store.retired := by
      refine List.filter_eq_self.mpr fun r hr => ?_
      rw [(hapart r hr).2]
      rfl
    rw [List.insert_of_not_mem hin, List.filter_cons, Place.isPrefixOf_refl]
    exact hothers
  rw [retire_of_part hpart, reinitialise_eq_ok_iff]
  refine ⟨⟨decl, hfind, halive, hwrite⟩, fun r hr hoverlap => ?_, ⟨p, List.mem_insert_self, p.isPrefixOf_refl⟩, ?_⟩
  · rcases List.mem_insert_iff.mp hr with rfl | hr
    · exact r.isPrefixOf_refl
    · exact Bool.noConfusion (hoverlap.symm.trans (hapart r hr).1)
  · rw [hretired]

end Store

theorem Registry.splits_retire (r : Registry) (p : Place) : (r.retire p).splits = r.splits := by
  rw [retire]
  split <;> rfl

/-- **Moving a part out and putting a value with the same facts back is the identity.** If a part overlaps itself, is in
being, and its variable is declared to be written, then it can be declared again after it has been moved out, whatever
else the declaration asks for. Afterwards every place is as live as it was, has the facts that it had, is declared to permit
what it did, and permits the same beside any loans. -/
theorem Registry.moved_out_and_back (r : Registry) {p : Place} (hpart : p.isVar = false) (hself : p.overlaps p = true)
    {decl : Declaration} (hlive : r.store.checkLive p = .ok decl) (hwrite : PermSet.write ⊆ decl.perms)
    (request : DeclareRequest) (hfacts : r.store.factsOf? p = some request.facts) :
    ∃ t : Registry, (r.retire p).declare p request = (.ok (), t) ∧ t.ledger = r.ledger ∧ t.splits = r.splits ∧
      ∀ q, t.store.checkLive q = r.store.checkLive q ∧ t.store.factsOf? q = r.store.factsOf? q ∧
        t.store.declared q = r.store.declared q ∧
        ∀ ledger, t.store.permissions ledger q = r.store.permissions ledger q := by
  have hstore : (r.retire p).store.declare p request = .ok (r.store.setFacts p request.facts) := by
    rw [Store.declare, hpart]
    exact Store.reinitialise_retire hpart hself hlive hwrite request
  rcases (r.retire p).declare_cases p request with ⟨e, herror, -⟩ | ⟨store, hok, hdeclare⟩
  · rw [hstore] at herror
    exact absurd herror (by simp)
  · cases hstore.symm.trans hok
    have hdeclared := Store.declared_of_inherited hfacts
    refine ⟨_, hdeclare, ledger_retire r p, splits_retire r p, fun q => ?_⟩
    refine ⟨Store.checkLive_setFacts q, Store.factsOf?_of_inherited hfacts q, hdeclared q, fun ledger => ?_⟩
    rw [Store.permissions, Store.permissions, Store.checkLive_setFacts, hdeclared]

/-- A part that has its facts from the place around it, with a part inside that has facts of its own, and with another part
of the same variable moved out. It is moved out and put back by a declaration that asks for next to nothing. -/
theorem Registry.inherited_part_out_and_back :
    let p : Place := ⟨⟨0⟩, [.field ⟨1⟩, .field ⟨2⟩]⟩
    let declared := (({} : Registry).declare (.var ⟨0⟩) ⟨.all, true, .owned, .root, none⟩).2
    let described := ((declared.registerFacts ⟨⟨0⟩, [.field ⟨1⟩]⟩ .plain).2.registerFacts (p.project .deref) .owned).2
    let r := described.retire ⟨⟨0⟩, [.field ⟨1⟩, .field ⟨3⟩]⟩
    let request : DeclareRequest := ⟨∅, false, .plain, ⟨7⟩, some .shared⟩
    r.store.checkLive (.var ⟨0⟩) = .error .moved ∧ r.store.factsAt? p = none ∧
    r.store.factsOf? p = some .plain ∧ r.store.factsOf? (p.project .deref) = some .owned ∧
    ∃ t : Registry, (r.retire p).declare p request = (.ok (), t) ∧ t.store.factsAt? p = some .plain ∧
      ∀ q, t.store.checkLive q = r.store.checkLive q ∧ t.store.factsOf? q = r.store.factsOf? q := by
  intro p declared described r request
  have hlive : r.store.checkLive p = .ok ⟨⟨0⟩, .var ⟨0⟩, .all, .owned, .root, 0, true, none, true⟩ := by decide
  obtain ⟨t, ht, -, -, hsame⟩ :=
    moved_out_and_back r (p := p) (by decide) (by decide) hlive (by decide) request (by decide)
  have hentered : ((r.retire p).declare p request).2.store.factsAt? p = some .plain := by decide
  rw [ht] at hentered
  exact ⟨by decide, by decide, by decide, by decide, t, ht, hentered, fun q => ⟨(hsame q).1, (hsame q).2.1⟩⟩

/-- Something inside a window without elements has been moved out. When the window is moved out and put back, the whole
array is in being again. -/
example :
    let p : Place := ⟨⟨0⟩, [.subslice 0 (some 0)]⟩
    let declared := (({} : Registry).declare (.var ⟨0⟩) ⟨.all, true, .owned, .root, none⟩).2
    let r := declared.retire (p.project .index)
    let t := ((r.retire p).declare p ⟨.all, true, .owned, .root, none⟩).2
    p.overlaps p = false ∧ (r.store.checkLive p).isOk = true ∧ (r.store.checkLive (.var ⟨0⟩)).isOk = false ∧
    (t.store.checkLive (.var ⟨0⟩)).isOk = true := by
  decide

end BorrowChecker
