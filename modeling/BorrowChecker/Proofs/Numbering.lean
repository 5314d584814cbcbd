import BorrowChecker.Proofs.References

/-!
# The numbers of places

Whatever an operation does to the registry is a sequence of calls (`step_calls`). So the references of the registry
resolve not only between operations but whenever a call or a rule looks one up in the midst of an operation, and also
when a fault names the loan behind it, since that loan is in the ledger at some point on the way (`names_of_apply`).
-/

namespace BorrowChecker

open Relation (ReflTransGen)

namespace Session

variable {config : Config} {s : Session} {op : Operation}

/-! ## Operations -/

theorem apply_calls (hplaced : s.store.Placed) (op : Operation) :
    ReflTransGen Registry.Call s.registry (s.apply op).2.registry := by
  have hrevisions : Registry.Revisions (fun _ => True) s.currentScope 1 s.registry (s.apply op).2.registry :=
    apply_revisions op fun _ _ _ _ _ => trivial
  exact hrevisions.calls hplaced

theorem refreshed_calls (s : Session) : ReflTransGen Registry.Call s.registry s.refreshed.registry :=
  .single (.releaseWhere _ _)

/-- Whatever the verdict, a step is a sequence of calls. -/
theorem step_calls (hplaced : s.store.Placed) (op : Operation) :
    ReflTransGen Registry.Call s.registry (s.step op).2.registry :=
  (s.step_revisions op).calls hplaced

theorem Later.calls {allowed : Session → Operation → Prop} {t : Session} (h : Later allowed s t)
    (hplaced : s.store.Placed) : ReflTransGen Registry.Call s.registry t.registry := by
  induction h with
  | refl => exact .refl
  | @step t op hlater _ ih => exact ih.trans (step_calls (hlater.placed hplaced) op)
  | paired ops _ ih => exact ih

theorem Reachable.numbered (h : Reachable config s) : s.registry.Numbered :=
  Registry.numbered_empty.calls (Later.calls h (Reachable.start config).placed)

end Session

/-! ## The loan behind a fault -/

/-- The loan that the fault mentions, if it mentions one, is in the ledger. -/
def Fault.Names (fault : Fault) (ledger : Ledger) : Prop :=
  ∀ info, fault.loan = some info → ∃ loan ∈ ledger.loans, loan.info = info

theorem Fault.names_about {ledger : Ledger} {kind : ViolationKind} {p : Place} {loan? : Option Loan}
    (h : ∀ loan, loan? = some loan → loan ∈ ledger.loans) : (Fault.about kind p loan?).Names ledger := by
  intro info hinfo
  obtain ⟨loan, hloan, hsame⟩ := Option.map_eq_some_iff.mp hinfo
  exact ⟨loan, h loan hloan, hsame⟩

theorem Fault.names_about_some {ledger : Ledger} {kind : ViolationKind} {p : Place} {loan : Loan}
    (h : loan ∈ ledger.loans) : (Fault.about kind p (some loan)).Names ledger :=
  names_about fun _ hloan => Option.some.inj hloan ▸ h

theorem Fault.names_about_none {ledger : Ledger} {kind : ViolationKind} {p : Place} : (Fault.about kind p).Names ledger :=
  names_about fun _ h => absurd h (by simp)

theorem Fault.names_unbalanced {ledger : Ledger} : Fault.unbalanced.Names ledger :=
  fun _ h => absurd h (by simp [unbalanced])

theorem Fault.OfAccess.names {ledger : Ledger} {p : Place} {fault : Fault} (h : fault.OfAccess ledger p) :
    fault.Names ledger := by
  cases h with
  | unusable _ _ => exact names_about_none
  | lent hloan => exact names_about_some (List.mem_of_mem_filter hloan)
  | missing _ => exact names_about fun loan hloan => List.mem_of_mem_filter (Ledger.mem_of_blocking? hloan)

theorem LoanError.names_fault {ledger : Ledger} {request : LoanRequest} {nesting : Nesting} {e : LoanError} {p : Place}
    (h : ledger.borrow request nesting = .error e) : (e.fault p).Names ledger := by
  rcases Ledger.borrow_eq_error h with ⟨existing, hobstacle, rfl⟩ | ⟨parent, hparent, -, rfl⟩
  · exact Fault.names_about_some (List.mem_of_mem_filter (Ledger.mem_of_obstacle? hobstacle))
  · exact Fault.names_about_some (List.mem_of_mem_filter hparent)

namespace Session

variable {config : Config} {s : Session} {op : Operation} {p : Place} {fault : Fault}

theorem names_of_prepareHolder {holder : Place} {kind : BorrowKind} {id : LoanId}
    (h : s.prepareHolder holder kind id = .error fault) : fault.Names s.ledger := by
  rcases prepareHolder_eq_error h with ⟨loan, hloan, -, rfl⟩ | ⟨-, ⟨e, rfl⟩ | rfl⟩
  · exact Fault.names_about_some (List.mem_of_mem_filter hloan)
  · exact Fault.names_about_none
  · exact Fault.names_about fun loan hloan => List.mem_of_mem_filter (Ledger.mem_of_blocking? hloan)

/-- The loan behind a fault is in the ledger at some point on the way through the operation. -/
theorem names_of_apply (hplaced : s.store.Placed) (h : (s.apply op).1 = some fault) :
    ∃ r, ReflTransGen Registry.Call s.registry r ∧ ReflTransGen Registry.Call r (s.apply op).2.registry ∧
      fault.Names r.ledger := by
  have hbefore : fault.Names s.ledger → ∃ r, ReflTransGen Registry.Call s.registry r ∧
      ReflTransGen Registry.Call r (s.apply op).2.registry ∧ fault.Names r.ledger :=
    fun hnames => ⟨s.registry, .refl, apply_calls hplaced op, hnames⟩
  cases op with
  | scopeBegin id =>
    rcases s.beginScope_cases id with hbegin | ⟨-, hbegin⟩
    · rw [apply, hbegin] at h
      cases h
      exact hbefore Fault.names_unbalanced
    · rw [apply, hbegin] at h
      exact absurd h (by simp)
  | scopeEnd id =>
    rcases s.endScope_cases id with ⟨-, hend⟩ | ⟨-, -, hend⟩
    · rw [apply, hend] at h
      cases h
      exact hbefore Fault.names_unbalanced
    · rw [apply, hend] at h ⊢
      have hunwound : Registry.Revisions (fun _ => True) id 0 s.registry (s.unwound id) := unwound_revisions id
      have hburied : Registry.Revisions (fun _ => True) id 0 (s.unwound id) _ := burial_revisions id
      have hplaced' : (s.unwound id).store.Placed := by rwa [unwound_frame]
      refine ⟨_, hunwound.calls hplaced, hburied.calls hplaced', ?_⟩
      obtain ⟨p, -, loan, hloan, rfl, -⟩ := Registry.buryAll_eq_some h
      exact Fault.names_about_some hloan
  | bind target init mutable perms facts =>
    rcases s.bind_cases target init mutable perms facts with
      ⟨other, hinit, hbind⟩ | ⟨source, e, -, -, hbind⟩ | ⟨source, store, -, -, hbind⟩
    · rw [apply, hbind] at h
      cases h
      obtain ⟨p, haccess⟩ := ofAccess_of_checkInit hinit
      exact hbefore haccess.names
    · rw [apply, hbind] at h
      cases h
      exact hbefore Fault.names_about_none
    · rw [apply, hbind] at h
      exact absurd h (by simp)
  | project p facts =>
    obtain rfl := checkPath_eq_error (guarded_rejected h)
    exact hbefore Fault.names_about_none
  | move p => exact hbefore (ofAccess_of_checkMove (guarded_rejected h)).names
  | copy p => exact hbefore (ofAccess_of_checkCopy (guarded_rejected h)).names
  | borrow source kind holder region =>
    rcases s.borrow_cases source kind holder region with
      ⟨other, hcheck, hborrow⟩ | ⟨stop, -, ⟨e, hledger, hborrow⟩ | ⟨id, ledger, hledger, hrest⟩⟩
    · rw [apply, hborrow] at h
      cases h
      exact hbefore (ofAccess_of_checkBorrow hcheck).1.names
    · rw [apply, hborrow] at h
      cases h
      exact hbefore (LoanError.names_fault hledger)
    · rcases hrest with ⟨other, hprepare, hborrow⟩ | ⟨t, -, hborrow⟩
      · rw [apply, hborrow] at h ⊢
        cases h
        exact ⟨_, .single (.lent hledger), .single (.release _ id), names_of_prepareHolder hprepare⟩
      · rw [apply, hborrow] at h
        exact absurd h (by simp)
  | mutate p => exact hbefore (ofAccess_of_checkAccess (guarded_rejected h)).names
  | access p needs => exact hbefore (ofAccess_of_checkAccess (guarded_rejected h)).names
  | drop p => exact hbefore (ofAccess_of_checkDrop (guarded_rejected h)).names
  | release holder =>
    obtain rfl := checkPath_eq_error (guarded_rejected h)
    exact hbefore Fault.names_about_none
  | split array boundary =>
    obtain ⟨e, -, rfl⟩ := checkLive_eq_error (guarded_rejected h)
    exact hbefore Fault.names_about_none
  | unchecked p => exact absurd h (by simp [apply])

/-! ## References never dangle -/

/-- What the numbers of places mean in a session, now and on the way through an operation. -/
structure WellNumbered (s : Session) : Prop where
  /-- Numbers and places determine each other. -/
  bijective : ∀ n p, s.registry.places.get? n = some p ↔ s.registry.places.id? p = some n
  dense : ∀ n, (∃ p, s.registry.places.get? n = some p) ↔ n < s.registry.places.size
  /-- A place is found under the number that it is given. -/
  found : ∀ p, (s.registry.places.intern p).2.get? (s.registry.places.intern p).1 = some p
  injective : ∀ p q, (s.registry.places.intern p).1 = ((s.registry.places.intern p).2.intern q).1 ↔ p = q
  /-- A number stands for the same place ever after. -/
  stable : ∀ t, Later (fun _ _ => True) s t → ∀ n p, s.registry.places.get? n = some p →
    t.registry.places.get? n = some p
  declared : ∀ x decl, s.store.find? x = some decl → decl.place = .var x
  rooted : ∀ p, p ∈ s.store.retired ∨ p ∈ s.store.facts.map (·.1) → p.isVar = false ∧ (s.store.find? p.root).isSome = true
  opened : s.scopes ≠ []
  /-- Whatever calls are made from here on, all references resolve: before a call, and so when the call or a rule looks
  them up, and after the last. -/
  resolved : ∀ r, ReflTransGen Registry.Call s.registry r → ∀ p ∈ r.references,
    ∃ n, r.places.id? p = some n ∧ r.places.get? n = some p
  /-- A step makes no other changes than by such calls. -/
  called : ∀ op, ReflTransGen Registry.Call s.registry (s.step op).2.registry
  /-- A violation names a loan that was live at some point on the way. -/
  named : ∀ op v info, (s.step op).1 = .violation v → v.loan = some info →
    ∃ r, ReflTransGen Registry.Call s.registry r ∧ ReflTransGen Registry.Call r (s.step op).2.registry ∧
      ∃ loan ∈ r.ledger.loans, loan.info = info

/-- **References never dangle.** However a session has been used, its table numbers the places it has seen one to one and
for ever, everything it keeps refers to numbered places, and so does everything it keeps in the midst of an operation. -/
theorem references_never_dangle (h : Reachable config s) : s.WellNumbered where
  bijective _ _ := PlaceTable.get?_eq_some_iff h.numbered.distinct
  dense n := ⟨fun ⟨_, hp⟩ => (List.getElem?_eq_some_iff.mp hp).1, fun hn => ⟨_, List.getElem?_eq_getElem hn⟩⟩
  found := PlaceTable.get?_intern _
  injective _ _ := PlaceTable.intern_eq_intern_iff h.numbered.distinct
  stable t hlater n p hget := by
    obtain ⟨later, hgrown⟩ := Registry.places_grow_of_calls (hlater.calls h.placed)
    rw [PlaceTable.get?, ← hgrown]
    exact (List.getElem?_append_left (List.getElem?_eq_some_iff.mp hget).1).trans hget
  declared x decl hfind := by
    have hname : decl.name = x := by simpa using List.find?_some hfind
    rw [h.placed decl (List.mem_of_find?_eq_some hfind), hname]
  rooted p hp := h.numbered.rooted p (List.mem_append.mpr hp)
  opened hnil := by
    have hbottom := h.stacked_housed.1.outermost
    rw [hnil] at hbottom
    exact absurd hbottom (by simp)
  resolved r hcalls p hp := PlaceTable.exists_number ((h.numbered.calls hcalls).known p hp)
  called := step_calls h.placed
  named op v info hv hinfo := by
    obtain ⟨-, hfault, hstep⟩ := step_rejected hv
    obtain ⟨r, hbefore, hafter, hnames⟩ := names_of_apply (s := s.refreshed) h.placed hfault
    refine ⟨r, s.refreshed_calls.trans hbefore, ?_, hnames info hinfo⟩
    rw [hstep]
    exact hafter

/-- A run that leaves references of every sort, the last operation of which is rejected after its places were numbered. -/
theorem references_of_every_sort :
    let run := ({} : Session).run [.bindFreshMut (.var ⟨0⟩), .project ⟨⟨0⟩, [.field ⟨1⟩]⟩ .plain,
      .drop ⟨⟨0⟩, [.field ⟨2⟩]⟩, .bindFreshMut (.var ⟨3⟩), .split (.var ⟨3⟩) 4,
      .borrowExclusive ⟨⟨3⟩, [.subslice 0 (some 4)]⟩ (.var ⟨5⟩) (.scope .root),
      .borrowShared ⟨⟨3⟩, [.subslice 4 none]⟩ ⟨⟨0⟩, [.field ⟨6⟩]⟩ (.scope .root),
      .borrowShared ⟨⟨3⟩, [.index]⟩ (.var ⟨7⟩) (.scope .root)]
    run.1.map (·.isOk) = [true, true, true, true, true, true, true, false] ∧
    run.2.registry.references = [.var ⟨0⟩, .var ⟨3⟩, .var ⟨5⟩, .var ⟨7⟩, ⟨⟨0⟩, [.field ⟨2⟩]⟩, ⟨⟨0⟩, [.field ⟨1⟩]⟩,
      ⟨⟨3⟩, [.subslice 0 (some 4)]⟩, .var ⟨5⟩, ⟨⟨3⟩, [.subslice 4 none]⟩, ⟨⟨0⟩, [.field ⟨6⟩]⟩, .var ⟨3⟩] ∧
    run.2.WellNumbered :=
  ⟨by decide, by decide, references_never_dangle ((Reachable.start {}).run _)⟩

end Session

end BorrowChecker
