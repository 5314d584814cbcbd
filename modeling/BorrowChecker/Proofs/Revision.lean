import BorrowChecker.Proofs.Outcome

/-!
# What an operation can do to the registry

Whatever an operation does to the registry is a sequence of revisions, and each revision comes with what the rules have
made sure of: only the destination of the operation is declared, and in the innermost scope; only live storage is lent;
only storage without loans is moved out, or a variable that dies, which loses its loans first. A revision keeps together
what belongs together: a reference is stored with the loan that it is of, and the loans held inside a place leave when the
place is moved out.

The case analysis over the operations is made here, once (`apply_revisions`). It also tells that of the revisions of an
operation no more than one takes numbers for what it enters. Later proofs take a revision apart as far as they need: into
small changes of one part of the registry each, or into calls on the registry.
-/

namespace BorrowChecker

/-- The place that an operation gives a value of its own: the target of a binding, or the variable that is to hold a
reference. -/
def Operation.destination? : Operation → Option Place
  | .bind target _ _ _ _ => some target
  | .borrow _ _ holder _ => if holder.isVar then some holder else none
  | _ => none

/-- The step declares `d`: a new life of a variable starts, or a value is put back into a part. The store decides about
that by itself, whatever the request says. -/
def Session.Declares (s : Session) (op : Operation) (d : Place) : Prop :=
  s.stopped = false ∧ op.destination? = some d ∧ ∃ request store, s.store.declare d request = .ok store

/-- How the reference of a new loan comes to its holder: the holder is a part of a variable that is alive, a variable that
takes the reference as its new value, or a variable that is declared for it. -/
inductive Store.Stores (scope : ScopeId) (store : Store) (request : LoanRequest) : Store → Prop where
  | part : request.holder.isVar = false → store.Alive request.holder.root → Stores scope store request store
  | assign {store' : Store} :
      request.holder.isVar = true → store.assignHolder request.holder.root request.kind = .ok store' →
      Stores scope store request store'
  | declare {store' : Store} {declaring : DeclareRequest} :
      request.holder.isVar = true → declaring.scope = scope → declaring.holder = some request.kind →
      store.declare request.holder declaring = .ok store' → Stores scope store request store'

namespace Registry

/-- One revision, made in a given scope. The places that may be declared are given as well. The flag tells whether numbers
are taken, for a declaration or for a loan. -/
inductive Revision (declared : Place → Prop) (scope : ScopeId) (r : Registry) : Bool → Registry → Prop where
  | declare {p : Place} {request : DeclareRequest} {store : Store} :
      request.scope = scope → declared p → r.store.declare p request = .ok store →
      Revision declared scope r true { r.enter p with store }
  /-- The store refuses to declare a place, which has been numbered. -/
  | refuse {p : Place} {request : DeclareRequest} {e : StoreError} :
      r.store.declare p request = .error e → Revision declared scope r false (r.enter p)
  /-- A target is declared to hold a reference, and takes over the loans of the source. -/
  | rebind {source target : Place} {request : DeclareRequest} {store : Store} :
      request.scope = scope → request.holder.isSome = true → declared target →
      r.store.declare target request = .ok store →
      Revision declared scope r true ({ r.enter target with store }.transfer source target).2
  | describe {p : Place} {facts : TypeFacts} {store : Store} :
      p.isVar = false → r.store.registerFacts p facts = .ok store → Revision declared scope r false { r.enter p with store }
  | withdraw {p : Place} :
      r.store.IsDeclared p.root → r.ledger.overlapping p = [] → Revision declared scope r false (r.withdraw p)
  /-- A declared variable dies. -/
  | bury {p : Place} :
      p ∈ r.store.decls.map (·.place) → Revision declared scope r false (r.bury p).2
  /-- A loan is made and its reference stored. -/
  | lend {request : LoanRequest} {nesting : Nesting} {id : LoanId} {ledger : Ledger} {store : Store} :
      r.store.Live request.source → r.ledger.borrow request nesting = .ok (id, ledger) →
      r.store.Stores scope request store →
      (∀ declaring store', request.holder.isVar = true → r.store.declare request.holder declaring = .ok store' →
        declared request.holder) →
      Revision declared scope r true { (r.enter request.source).enter request.holder with ledger, store }
  /-- A loan is made and taken back. -/
  | revoke {request : LoanRequest} {nesting : Nesting} {id : LoanId} {ledger : Ledger} :
      r.store.Live request.source → r.ledger.borrow request nesting = .ok (id, ledger) →
      Revision declared scope r true ({ (r.enter request.source).enter request.holder with ledger }.release id)
  /-- The ledger refuses a loan, whose places have been numbered. -/
  | decline {request : LoanRequest} {nesting : Nesting} {e : LoanError} :
      r.ledger.borrow request nesting = .error e →
      Revision declared scope r false ((r.enter request.source).enter request.holder)
  | release (gone : Loan → Bool) :
      Revision declared scope r false { r with ledger := (r.ledger.releaseWhere gone).2 }
  | cut (array : Place) (boundary : Nat) : Revision declared scope r false (r.split array boundary scope).2
  | discard (id : ScopeId) : Revision declared scope r false (r.discardSplits id)

/-- Revisions one after the other, of which no more than `n` take numbers. -/
inductive Revisions (declared : Place → Prop) (scope : ScopeId) : Nat → Registry → Registry → Prop where
  | none {n : Nat} {r : Registry} : Revisions declared scope n r r
  | quiet {n : Nat} {r r' r'' : Registry} :
      Revision declared scope r false r' → Revisions declared scope n r' r'' → Revisions declared scope n r r''
  | taking {n : Nat} {r r' r'' : Registry} :
      Revision declared scope r true r' → Revisions declared scope n r' r'' → Revisions declared scope (n + 1) r r''

variable {declared : Place → Prop} {scope : ScopeId} {n : Nat} {r r' r'' : Registry} {p : Place}

theorem Revision.alone (h : Revision declared scope r true r') : Revisions declared scope 1 r r' := .taking h .none

/-- Revisions that take no numbers may come before others. -/
theorem Revisions.quiet_trans (h : Revisions declared scope 0 r r') (h' : Revisions declared scope n r' r'') :
    Revisions declared scope n r r'' := by
  generalize hzero : 0 = m at h
  induction h with
  | none => exact h'
  | quiet hfirst _ ih => exact .quiet hfirst (ih h' hzero)
  | taking _ _ _ => exact absurd hzero (Nat.succ_ne_zero _).symm

/-- What every revision keeps is kept by all of them together. -/
theorem Revisions.invariant {P : Registry → Prop}
    (hrevision : ∀ takes r r', Revision declared scope r takes r' → P r → P r') (h : Revisions declared scope n r r')
    (hr : P r) : P r' := by
  induction h with
  | none => exact hr
  | quiet hfirst _ ih => exact ih (hrevision _ _ _ hfirst hr)
  | taking hfirst _ ih => exact ih (hrevision _ _ _ hfirst hr)

theorem declare_revisions {request : DeclareRequest} (hscope : request.scope = scope)
    (h : ∀ store, r.store.declare p request = .ok store → declared p) :
    Revisions declared scope 1 r (r.declare p request).2 := by
  rcases r.declare_cases p request with ⟨e, hrefused, hregistry⟩ | ⟨store, hstore, hregistry⟩
  · rw [hregistry]
    exact .quiet (.refuse hrefused) .none
  · rw [hregistry]
    exact Revision.alone (.declare hscope (h store hstore) hstore)

theorem registerFacts_revisions (hpart : p.isVar = false) (facts : TypeFacts) :
    Revisions declared scope n r (r.registerFacts p facts).2 := by
  rw [registerFacts]
  split
  next e _ => exact .none
  next store hstore => exact .quiet (.describe hpart hstore) .none

theorem foldl_releaseHeldBy_frame (holders : List Place) :
    holders.foldl releaseHeldBy r = { r with ledger := (holders.foldl releaseHeldBy r).ledger } := by
  induction holders generalizing r with
  | nil => rfl
  | cons holder holders ih => exact ih

theorem foldl_releaseHeldBy_revisions (holders : List Place) :
    Revisions declared scope n r (holders.foldl releaseHeldBy r) := by
  induction holders generalizing r with
  | nil => exact .none
  | cons holder holders ih => exact .quiet (.release _) ih

theorem buryAll_revisions {ps : List Place} (hps : ∀ p ∈ ps, p ∈ r.store.decls.map (·.place)) :
    Revisions declared scope n r (r.buryAll ps).2 := by
  induction ps generalizing r with
  | nil => exact .none
  | cons p ps ih =>
    -- the others are still declared when the first has died
    have hrest : ∀ q ∈ ps, q ∈ (r.bury p).2.store.decls.map (·.place) := by
      intro q hq
      change q ∈ (r.store.retire p).decls.map (·.place)
      rw [Store.places_retire]
      exact hps q (List.mem_cons_of_mem _ hq)
    exact .quiet (.bury (hps p List.mem_cons_self)) (ih hrest)

end Registry

/-- A place that has its number gets no other. -/
theorem PlaceTable.insert_insert (table : PlaceTable) (p : Place) : (table.insert p).insert p = table.insert p := by
  have hmem : p ∈ (table.insert p).places := mem_places_insert.mpr (Or.inl rfl)
  generalize table.insert p = grown at hmem
  rw [insert, intern]
  split
  next => rfl
  next hnone => exact absurd hmem (id?_eq_none_iff.mp hnone)

namespace Session

variable {s : Session} {p : Place}

/-! ## What is moved out is declared -/

theorem isDeclared_of_checkPath (h : s.checkPath p = .ok ()) : s.store.IsDeclared p.root :=
  (checkPath_eq_ok_iff.mp h).1

theorem isDeclared_of_checkMove (h : s.checkMove p = .ok ()) : s.store.IsDeclared p.root :=
  isDeclared_of_checkPath (checkLive_eq_ok_iff.mp (checkAccess_eq_ok_iff.mp (checkMove_eq_ok_iff.mp h).1).1).1

theorem isDeclared_of_checkCopy (h : s.checkCopy p = .ok true) : s.store.IsDeclared p.root := by
  rcases checkCopy_eq_ok_iff.mp h with ⟨-, hmoves, -⟩ | ⟨-, -, hmove⟩
  · exact Bool.noConfusion hmoves
  · exact isDeclared_of_checkMove hmove

theorem isDeclared_of_checkInit {init : Init} (h : s.checkInit init = .ok (some p)) : s.store.IsDeclared p.root := by
  rcases checkInit_eq_ok_some_iff.mp h with ⟨-, hmove⟩ | ⟨-, hcopy⟩
  · exact isDeclared_of_checkMove hmove
  · exact isDeclared_of_checkCopy hcopy

/-! ## Operations -/

variable {declared : Place → Prop} {n : Nat}

theorem unwound_revisions {scope : ScopeId} (id : ScopeId) :
    Registry.Revisions declared scope n s.registry (s.unwound id) :=
  .quiet (.release _) ((Registry.foldl_releaseHeldBy_revisions _).quiet_trans (.quiet (.discard id) .none))

theorem unwound_frame (id : ScopeId) :
    s.unwound id = { s.registry with ledger := (s.unwound id).ledger, splits := s.splits.discard id } :=
  congrArg (Registry.discardSplits · id) (Registry.foldl_releaseHeldBy_frame (s.dying id))

theorem burial_revisions {scope : ScopeId} (id : ScopeId) :
    Registry.Revisions declared scope n (s.unwound id) ((s.unwound id).buryAll (s.dying id)).2 := by
  refine Registry.buryAll_revisions fun p hp => ?_
  obtain ⟨decl, hdecl, rfl⟩ := List.mem_map.mp hp
  rw [unwound_frame]
  exact List.mem_map_of_mem (List.mem_of_mem_filter (List.mem_reverse.mp hdecl))

theorem endScope_revisions {scope : ScopeId} (id : ScopeId) :
    Registry.Revisions declared scope n s.registry (s.endScope id).2.registry := by
  rcases s.endScope_cases id with ⟨-, hsame⟩ | ⟨-, -, hclosed⟩
  · rw [hsame]
    exact .none
  · rw [hclosed]
    exact (unwound_revisions id).quiet_trans (burial_revisions id)

theorem bind_revisions {target : Place} {init : Init} {mutable : Bool} {perms : PermSet} {facts : TypeFacts}
    (h : ∀ request store, s.store.declare target request = .ok store → declared target) :
    Registry.Revisions declared s.currentScope 1 s.registry
      (s.bind target init mutable perms facts).2.registry := by
  rcases s.bind_cases target init mutable perms facts with
    ⟨fault, -, hbind⟩ | ⟨source, e, -, hrefused, hbind⟩ | ⟨source, store, hinit, hstore, hbind⟩
  · rw [hbind]
    exact Registry.declare_revisions rfl fun store => h _ store
  · rw [hbind]
    exact .quiet (.refuse hrefused) .none
  · rw [hbind]
    have hscope : ∀ held, (s.bindRequest held mutable perms facts).scope = s.currentScope := by
      rintro (_ | kind) <;> rfl
    have hdeclared : declared target := h _ store hstore
    cases source with
    | none => exact Registry.Revision.alone (.declare (hscope _) hdeclared hstore)
    | some p =>
      have hroot : store.IsDeclared p.root := Store.isDeclared_of_declare hstore (isDeclared_of_checkInit hinit)
      have hfree : s.ledger.overlapping p = [] := overlapping_of_checkInit hinit
      change Registry.Revisions _ _ _ _ (Registry.relocate _ p target ((some p).bind s.heldKind?).isSome)
      cases hheld : (some p).bind s.heldKind? with
      | none => exact .taking (.declare (hscope _) hdeclared hstore) (.quiet (.withdraw hroot hfree) .none)
      | some kind =>
        rw [hheld] at hstore
        refine .taking (.rebind (hscope _) rfl hdeclared hstore) (.quiet (.withdraw hroot ?_) .none)
        exact Ledger.overlapping_transfer_eq_nil hfree

theorem ensureHolder_revisions {holder : Place} {kind : BorrowKind}
    (h : ∀ request store, holder.isVar = true → s.store.declare holder request = .ok store → declared holder) :
    Registry.Revisions declared s.currentScope 1 s.registry (s.ensureHolder holder kind).registry := by
  rcases s.ensureHolder_cases holder kind with hsame | ⟨hvar, -, hdeclared⟩
  · rw [hsame]
    exact .none
  · rw [hdeclared]
    exact Registry.declare_revisions rfl fun store => h _ store hvar

/-- The reference of a new loan is stored by one of the ways there are. -/
theorem stores_of_prepareHolder (request : LoanRequest) {t : Session} {ledger : Ledger} {id : LoanId}
    (h : { s with registry := { (s.registry.enter request.source).enter request.holder with ledger } }.prepareHolder
      request.holder request.kind id = .ok t) :
    ∃ store, s.store.Stores s.currentScope request store ∧
      t.registry = { (s.registry.enter request.source).enter request.holder with ledger, store } := by
  rcases (prepareHolder_cases h).2 with
    ⟨hpart, haccess, rfl⟩ | ⟨hvar, store, hassign, rfl⟩ | ⟨hvar, store, hstore, rfl⟩
  · have hlive := (checkLive_eq_ok_iff.mp (checkAccess_eq_ok_iff.mp haccess).1).2
    exact ⟨s.store, .part hpart (Store.live_iff.mp hlive).1, rfl⟩
  · exact ⟨store, .assign hvar hassign, rfl⟩
  · refine ⟨store, .declare hvar rfl rfl hstore, ?_⟩
    -- the holder has its number already when it is declared
    simp only [Registry.enter, PlaceTable.insert_insert]

theorem borrow_revisions {source holder : Place} {kind : BorrowKind} {region : Region}
    (h : ∀ request store, holder.isVar = true → s.store.declare holder request = .ok store → declared holder) :
    Registry.Revisions declared s.currentScope 1 s.registry
      (s.borrow source kind holder region).2.registry := by
  rcases s.borrow_cases source kind holder region with ⟨fault, -, hborrow⟩ | ⟨stop, hcheck, hrest⟩
  · rw [hborrow]
    exact ensureHolder_revisions h
  · obtain ⟨-, hlive, -⟩ := checkBorrow_eq_ok_iff.mp hcheck
    have hsource : s.store.Live source := (checkLive_eq_ok_iff.mp hlive).2
    rcases hrest with ⟨e, hdeclined, hborrow⟩ | ⟨id, ledger, hledger, ⟨fault, -, hborrow⟩ | ⟨t, hprepare, hborrow⟩⟩
    · rw [hborrow]
      refine .quiet (.decline hdeclined) ?_
      exact ensureHolder_revisions (s := { s with registry := (s.registry.enter source).enter holder }) h
    · rw [hborrow]
      exact Registry.Revision.alone (.revoke hsource hledger)
    · rw [hborrow]
      obtain ⟨store, hstores, hregistry⟩ :=
        stores_of_prepareHolder ⟨source, kind, holder, region, stop, s.next⟩ hprepare
      rw [hregistry]
      exact Registry.Revision.alone (.lend hsource hledger hstores h)

theorem guarded_revisions {α : Type} {check : Except Fault α} {change : α → Registry} {scope : ScopeId}
    (h : ∀ a, check = .ok a → Registry.Revisions declared scope n s.registry (change a)) :
    Registry.Revisions declared scope n s.registry (s.guarded check change).2.registry := by
  rcases s.guarded_cases check change with ⟨fault, -, hguarded⟩ | ⟨a, ha, hguarded⟩
  · rw [hguarded]
    exact .none
  · rw [hguarded]
    exact h a ha

/-- Whatever an operation does to the registry, it does by revisions in the innermost scope, which declare nothing but its
destination. -/
theorem apply_revisions (op : Operation)
    (h : ∀ d request store, op.destination? = some d → s.store.declare d request = .ok store → declared d) :
    Registry.Revisions declared s.currentScope 1 s.registry (s.apply op).2.registry := by
  cases op with
  | scopeBegin id =>
    rcases s.beginScope_cases id with hbegin | ⟨-, hbegin⟩
    · rw [apply, hbegin]
      exact .none
    · rw [apply, hbegin]
      exact .none
  | scopeEnd id => exact endScope_revisions id
  | bind target init mutable perms facts => exact bind_revisions fun request store => h target request store rfl
  | project p facts =>
    refine guarded_revisions fun _ _ => ?_
    split
    next => exact .none
    next hpart => exact Registry.registerFacts_revisions (Bool.eq_false_iff.mpr hpart) facts
  | move p =>
    refine guarded_revisions fun _ hcheck => .quiet (.withdraw (isDeclared_of_checkMove hcheck) ?_) .none
    exact (checkMove_eq_ok_iff.mp hcheck).2
  | copy p =>
    refine guarded_revisions fun moves hcheck => ?_
    cases moves with
    | false => exact .none
    | true => exact .quiet (.withdraw (isDeclared_of_checkCopy hcheck) (overlapping_of_checkCopy hcheck)) .none
  | borrow source kind holder region =>
    refine borrow_revisions fun request store hvar => h holder request store ?_
    rw [Operation.destination?, if_pos hvar]
  | mutate p => exact guarded_revisions fun _ _ => .none
  | access p needs => exact guarded_revisions fun _ _ => .none
  | drop p =>
    refine guarded_revisions fun _ hcheck => .quiet (.withdraw ?_ (overlapping_of_checkDrop hcheck)) .none
    exact isDeclared_of_checkPath (checkDrop_eq_ok_iff.mp hcheck).1
  | release holder => exact guarded_revisions fun _ _ => .quiet (.release _) .none
  | split array boundary => exact guarded_revisions fun _ _ => .quiet (.cut array boundary) .none
  | unchecked p => exact .none

/-! ## Steps -/

theorem refreshed_revisions (s : Session) {scope : ScopeId} :
    Registry.Revisions declared scope n s.registry s.refreshed.registry :=
  .quiet (.release _) .none

/-- Whatever the verdict, a step is a sequence of revisions. -/
theorem step_revisions (s : Session) (op : Operation) :
    Registry.Revisions (s.Declares op) s.currentScope 1 s.registry (s.step op).2.registry := by
  cases hstop : s.stopped with
  | true =>
    rw [step_of_stopped hstop]
    exact .none
  | false =>
    obtain ⟨stopped, hstep⟩ := s.step_running hstop op
    rw [hstep]
    refine s.refreshed_revisions.quiet_trans (apply_revisions (s := s.refreshed) op fun d request store hd hstore => ?_)
    exact ⟨hstop, hd, request, store, hstore⟩

end Session

end BorrowChecker
