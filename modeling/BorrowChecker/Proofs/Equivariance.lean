import BorrowChecker.Proofs.Mirror
import BorrowChecker.Proofs.Reachable
import Mathlib.Data.List.Nodup
import Mathlib.Logic.Equiv.Basic

/-!
# Equivariance

A session mirrors another if it is the other renamed (`Session.Mirrors`). No rule asks more of a name than whether it is
the same as another, so mirrored sessions find corresponding faults in corresponding operations and stay mirrored
(`Mirrors.step`, `Mirrors.run`). In particular it makes no difference how names and places are numbered.

What a table of variables is asked, besides the variable of a given name, is which variables of a scope are alive. These
are told in the reverse order of their declarations, and no two declarations have the same position, so the table may be
in any order (`Store.Ordered.liveIn_eq_mergeSort`).
-/

namespace BorrowChecker

variable {ν : Renaming}

theorem mapError_bind {ε ε' α β : Type} (x : Except ε α) (f : α → Except ε β) (g : ε → ε') :
    (x >>= f).mapError g = x.mapError g >>= fun a => (f a).mapError g := by
  cases x <;> rfl

namespace Session

/-- The second session is the first one renamed. They may list differently what they know of the ends of scopes. -/
structure Mirrors (ν : Renaming) (s t : Session) : Prop where
  config : t.config = s.config
  registry : s.registry.Mirrors ν t.registry
  scopes : t.scopes = s.scopes.map (·.rename ν)
  ends : ∀ i, t.pairs.lookup i = s.pairs.lookup i
  next : t.next = s.next
  stopped : t.stopped = s.stopped

/-- Both sessions find the same fault, and are left alike. -/
structure Alike (ν : Renaming) (result result' : Option Fault × Session) : Prop where
  fault : result'.1 = result.1.map (·.rename ν)
  session : result.2.Mirrors ν result'.2

namespace Mirrors

variable {s t : Session}

theorem store (h : s.Mirrors ν t) : s.store.Mirrors ν t.store := h.registry.store

theorem ledger (h : s.Mirrors ν t) : t.ledger = s.ledger.rename ν := h.registry.ledger

theorem withRegistry (h : s.Mirrors ν t) {r r' : Registry} (hregistry : r.Mirrors ν r') :
    { s with registry := r }.Mirrors ν { t with registry := r' } :=
  ⟨h.config, hregistry, h.scopes, h.ends, h.next, h.stopped⟩

/-! ## Rules -/

theorem currentScope (h : s.Mirrors ν t) : t.currentScope = ν.scope s.currentScope := by
  rw [Session.currentScope, Session.currentScope, h.scopes, List.head?_map]
  cases s.scopes.head? with
  | none => exact ν.scope_root.symm
  | some innermost => rfl

theorem factsOf (h : s.Mirrors ν t) (p : Place) : t.factsOf (p.rename ν) = s.factsOf p := by
  rw [Session.factsOf, Session.factsOf, h.store.factsOf?]

theorem checkPath (h : s.Mirrors ν t) (p : Place) :
    t.checkPath (p.rename ν) = (s.checkPath p).mapError (·.rename ν) := by
  have hwindows : (p.rename ν).windows.all t.splits.has = p.windows.all s.splits.has := by
    rw [Place.windows_rename, List.all_map]
    congr 1
    funext w
    change t.registry.splits.has _ = _
    rw [h.registry.splits]
    exact Splits.has_rename ν s.splits w
  rw [Session.checkPath, Session.checkPath, Place.rename_root, h.store.find?, Option.isSome_map, hwindows]
  split <;> rfl

theorem checkLive (h : s.Mirrors ν t) (p : Place) :
    t.checkLive (p.rename ν) = (s.checkLive p).mapError (·.rename ν) := by
  rw [Session.checkLive, Session.checkLive, h.checkPath, mapError_bind]
  congr 1
  funext _
  rw [h.store.checkLive]
  cases s.store.checkLive p <;> rfl

theorem permissionsAt (h : s.Mirrors ν t) (p : Place) :
    t.permissionsAt (p.rename ν) = (s.permissionsAt p).mapError (·.rename ν) := by
  rw [Session.permissionsAt, Session.permissionsAt, h.registry.permissions]
  cases s.registry.permissions p <;> rfl

theorem checkAccess (h : s.Mirrors ν t) (p : Place) (needs : PermSet) :
    t.checkAccess (p.rename ν) needs = (s.checkAccess p needs).mapError (·.rename ν) := by
  rw [Session.checkAccess, Session.checkAccess, h.checkLive, mapError_bind]
  congr 1
  funext _
  rw [h.permissionsAt, mapError_bind]
  congr 1
  funext perms
  simp only [h.ledger, Ledger.blocking?_rename]
  split
  · rfl
  split
  · cases s.ledger.blocking? p .read <;> rfl
  split
  · exact congrArg Except.error (Fault.rename_about ν _ p _).symm
  · exact congrArg Except.error (Fault.rename_about ν _ p _).symm

theorem checkMove (h : s.Mirrors ν t) (p : Place) :
    t.checkMove (p.rename ν) = (s.checkMove p).mapError (·.rename ν) := by
  rw [Session.checkMove, Session.checkMove, h.factsOf, h.checkAccess, mapError_bind]
  congr 1
  funext _
  rw [h.ledger, Ledger.overlapping_rename, List.getLast?_map]
  cases (s.ledger.overlapping p).getLast? <;> rfl

theorem checkCopy (h : s.Mirrors ν t) (p : Place) :
    t.checkCopy (p.rename ν) = (s.checkCopy p).mapError (·.rename ν) := by
  rw [Session.checkCopy, Session.checkCopy, h.factsOf, h.checkAccess, h.checkMove]
  split
  · rw [mapError_bind]
    rfl
  · rw [mapError_bind]
    rfl

theorem checkDrop (h : s.Mirrors ν t) (p : Place) :
    t.checkDrop (p.rename ν) = (s.checkDrop p).mapError (·.rename ν) := by
  rw [Session.checkDrop, Session.checkDrop, h.factsOf, h.checkPath, h.checkAccess, mapError_bind]
  congr 1
  funext _
  split <;> rfl

theorem regionStop? (h : s.Mirrors ν t) (region : Region) : t.regionStop? (region.rename ν) = s.regionStop? region := by
  cases region with
  | span start stop => rw [Region.rename, Session.regionStop?, Session.regionStop?, h.next]
  | scope id =>
    have hsame : (t.scopes.find? (·.id == ν.scope id)) = (s.scopes.find? (·.id == id)).map (·.rename ν) := by
      rw [h.scopes, List.find?_map]
      simp only [Function.comp_def, OpenScope.rename_id, ν.scope_beq]
    rw [Region.rename, Session.regionStop?, Session.regionStop?, hsame, Option.map_map]
    rfl

theorem checkBorrow (h : s.Mirrors ν t) (source : Place) (kind : BorrowKind) (region : Region) :
    t.checkBorrow (source.rename ν) kind (region.rename ν) =
      (s.checkBorrow source kind region).mapError (·.rename ν) := by
  rw [Session.checkBorrow, Session.checkBorrow, h.regionStop?]
  cases s.regionStop? region with
  | none => rfl
  | some stop =>
    simp only
    rw [h.checkLive, mapError_bind]
    congr 1
    funext _
    rw [h.ledger, Ledger.obstacle?_rename]
    cases s.ledger.obstacle? source kind with
    | some loan => rfl
    | none =>
      simp only [Option.map_none]
      rw [h.permissionsAt, mapError_bind]
      congr 1
      funext perms
      split
      · rfl
      split <;> rfl

/-! ## Scopes -/

theorem beginScope (h : s.Mirrors ν t) (id : ScopeId) : Alike ν (s.beginScope id) (t.beginScope (ν.scope id)) := by
  have hopen : t.scopes.any (·.id == ν.scope id) = s.scopes.any (·.id == id) := by
    rw [h.scopes, List.any_map]
    simp only [Function.comp_def, OpenScope.rename_id, ν.scope_beq]
  have hstop : t.pairs.lookup t.next = s.pairs.lookup s.next := by rw [h.next, h.ends]
  rw [Session.beginScope, Session.beginScope, hopen, hstop]
  split
  next => exact ⟨rfl, h⟩
  next =>
    refine ⟨rfl, h.config, h.registry, ?_, h.ends, h.next, h.stopped⟩
    rw [h.scopes]
    rfl

theorem endScope (h : s.Mirrors ν t) (id : ScopeId) : Alike ν (s.endScope id) (t.endScope (ν.scope id)) := by
  rw [Session.endScope, Session.endScope, h.scopes]
  cases s.scopes with
  | nil => exact ⟨rfl, h⟩
  | cons innermost outer =>
    simp only [List.map_cons, OpenScope.rename_id, ν.scope_eq_root_iff, ne_eq, ν.scope_inj]
    split
    next => exact ⟨rfl, h⟩
    next =>
      have hdying : (t.store.liveIn (ν.scope id)).map (·.place) =
          ((s.store.liveIn id).map (·.place)).map (·.rename ν) := by
        rw [h.store.liveIn, List.map_map, List.map_map]
        rfl
      rw [hdying]
      have hreleased := (h.registry.releaseScope id).foldl_releaseHeldBy ((s.store.liveIn id).map (·.place))
      obtain ⟨hfault, hburied⟩ := (hreleased.discardSplits id).buryAll ((s.store.liveIn id).map (·.place))
      exact ⟨hfault, h.config, hburied, rfl, h.ends, h.next, h.stopped⟩

/-! ## Bindings -/

theorem checkInit (h : s.Mirrors ν t) (init : Init) :
    t.checkInit (init.rename ν) = ((s.checkInit init).map (Option.map (·.rename ν))).mapError (·.rename ν) := by
  cases init with
  | fresh => rfl
  | move source =>
    rw [Init.rename, Session.checkInit, Session.checkInit, h.checkMove]
    cases s.checkMove source <;> rfl
  | copy source =>
    rw [Init.rename, Session.checkInit, Session.checkInit, h.checkCopy]
    rcases s.checkCopy source with _ | (_ | _) <;> rfl

theorem heldKind? (h : s.Mirrors ν t) (source : Place) : t.heldKind? (source.rename ν) = s.heldKind? source := by
  rw [Session.heldKind?, Session.heldKind?, Place.isVar_rename, Place.rename_root, h.store.find?]
  cases s.store.find? source.root <;> rfl

theorem bindRequest (h : s.Mirrors ν t) (held : Option BorrowKind) (mutable : Bool) (perms : PermSet) (facts : TypeFacts) :
    t.bindRequest held mutable perms facts = (s.bindRequest held mutable perms facts).rename ν := by
  cases held <;> simp [Session.bindRequest, h.currentScope, DeclareRequest.rename]

theorem bind (h : s.Mirrors ν t) (target : Place) (init : Init) (mutable : Bool) (perms : PermSet) (facts : TypeFacts) :
    Alike ν (s.bind target init mutable perms facts) (t.bind (target.rename ν) (init.rename ν) mutable perms facts) := by
  rw [Session.bind, Session.bind, h.checkInit]
  cases s.checkInit init with
  | error fault =>
    have hdeclare := h.registry.declare target (s.bindRequest none mutable perms facts)
    rw [← h.bindRequest] at hdeclare
    exact ⟨rfl, h.withRegistry hdeclare.registry⟩
  | ok source =>
    have hheld : (source.map (·.rename ν)).bind t.heldKind? = source.bind s.heldKind? := by
      cases source with
      | none => rfl
      | some p => exact h.heldKind? p
    have hdeclare := h.registry.declare target (s.bindRequest (source.bind s.heldKind?) mutable perms facts)
    rw [← h.bindRequest] at hdeclare
    simp only [Except.map, Except.mapError, hheld]
    rcases hs : s.registry.declare target (s.bindRequest (source.bind s.heldKind?) mutable perms facts) with ⟨answer, r⟩
    rcases ht : t.registry.declare (target.rename ν) (t.bindRequest (source.bind s.heldKind?) mutable perms facts) with
      ⟨answer', r'⟩
    rw [hs, ht] at hdeclare
    obtain ⟨rfl, hregistry⟩ := hdeclare
    cases answer' with
    | error e => exact ⟨rfl, h.withRegistry hregistry⟩
    | ok =>
      cases source with
      | none => exact ⟨rfl, h.withRegistry hregistry⟩
      | some p => exact ⟨rfl, h.withRegistry (hregistry.relocate p target _)⟩

/-! ## Loans -/

theorem rootLive (h : s.Mirrors ν t) (p : Place) : t.rootLive (p.rename ν) = s.rootLive p := by
  rw [Session.rootLive, Session.rootLive, Place.rename_root, h.store.find?, Option.any_map]
  rfl

theorem declareHolder (h : s.Mirrors ν t) (holder : Place) (kind : BorrowKind) :
    (t.declareHolder (holder.rename ν) kind).1 = (s.declareHolder holder kind).1 ∧
      (s.declareHolder holder kind).2.Mirrors ν (t.declareHolder (holder.rename ν) kind).2 := by
  have hdeclare := h.registry.declare holder ⟨kind.grants, false, .reference kind, s.currentScope, some kind⟩
  rw [DeclareRequest.rename, ← h.currentScope] at hdeclare
  exact ⟨hdeclare.answer, h.withRegistry hdeclare.registry⟩

theorem ensureHolder (h : s.Mirrors ν t) (holder : Place) (kind : BorrowKind) :
    (s.ensureHolder holder kind).Mirrors ν (t.ensureHolder (holder.rename ν) kind) := by
  rw [Session.ensureHolder, Session.ensureHolder, Place.isVar_rename, h.rootLive]
  split
  next => exact (h.declareHolder holder kind).2
  next => exact h

/-- The reference of a new loan is stored in both sessions, or in neither for the same reason. -/
theorem prepareHolder (h : s.Mirrors ν t) (holder : Place) (kind : BorrowKind) (id : LoanId) :
    (∃ fault, s.prepareHolder holder kind id = .error fault ∧
      t.prepareHolder (holder.rename ν) kind id = .error (fault.rename ν)) ∨
    ∃ s' t', s.prepareHolder holder kind id = .ok s' ∧ t.prepareHolder (holder.rename ν) kind id = .ok t' ∧
      s'.Mirrors ν t' := by
  have hothers : ((t.ledger.overlapping (holder.rename ν)).filter (·.id != id)).getLast? =
      ((s.ledger.overlapping holder).filter (·.id != id)).getLast?.map (·.rename ν) := by
    rw [h.ledger, Ledger.overlapping_rename, List.filter_map, List.getLast?_map]
    rfl
  rw [Session.prepareHolder, Session.prepareHolder, hothers, Place.isVar_rename, h.rootLive, Place.rename_root]
  cases ((s.ledger.overlapping holder).filter (·.id != id)).getLast? with
  | some loan => exact Or.inl ⟨_, rfl, rfl⟩
  | none =>
    simp only [Option.map_none]
    split
    next =>
      rw [h.checkAccess]
      cases s.checkAccess holder .write with
      | error fault => exact Or.inl ⟨_, rfl, rfl⟩
      | ok => exact Or.inr ⟨s, t, rfl, rfl, h⟩
    split
    next =>
      have hassign := h.registry.assignHolder holder.root kind
      rcases hs : s.registry.assignHolder holder.root kind with ⟨answer, r⟩
      rcases ht : t.registry.assignHolder (ν.symbol holder.root) kind with ⟨answer', r'⟩
      rw [hs, ht] at hassign
      obtain ⟨rfl, hregistry⟩ := hassign
      cases answer' with
      | error e => exact Or.inl ⟨_, rfl, rfl⟩
      | ok => exact Or.inr ⟨_, _, rfl, rfl, h.withRegistry hregistry⟩
    next =>
      obtain ⟨hanswer, hsession⟩ := h.declareHolder holder kind
      rcases hs : s.declareHolder holder kind with ⟨answer, s'⟩
      rcases ht : t.declareHolder (holder.rename ν) kind with ⟨answer', t'⟩
      rw [hs, ht] at hanswer hsession
      obtain rfl : answer' = answer := hanswer
      cases answer' with
      | error e => exact Or.inl ⟨_, rfl, rfl⟩
      | ok => exact Or.inr ⟨_, _, rfl, rfl, hsession⟩

theorem borrow (h : s.Mirrors ν t) (source : Place) (kind : BorrowKind) (holder : Place) (region : Region) :
    Alike ν (s.borrow source kind holder region) (t.borrow (source.rename ν) kind (holder.rename ν) (region.rename ν)) := by
  rw [Session.borrow, Session.borrow, h.checkBorrow]
  cases s.checkBorrow source kind region with
  | error fault => exact ⟨rfl, h.ensureHolder holder kind⟩
  | ok stop =>
    have hrequest : (⟨source.rename ν, kind, holder.rename ν, region.rename ν, stop, t.next⟩ : LoanRequest) =
        LoanRequest.rename ν ⟨source, kind, holder, region, stop, s.next⟩ := by
      rw [h.next]
      rfl
    have hnesting : t.config.nesting = s.config.nesting := congrArg Config.nesting h.config
    simp only [Except.mapError]
    rw [hrequest, hnesting]
    have hborrow := h.registry.borrow ⟨source, kind, holder, region, stop, s.next⟩ s.config.nesting
    rcases hs : s.registry.borrow ⟨source, kind, holder, region, stop, s.next⟩ s.config.nesting with ⟨answer, r⟩
    rcases ht : t.registry.borrow (LoanRequest.rename ν ⟨source, kind, holder, region, stop, s.next⟩) s.config.nesting
      with ⟨answer', r'⟩
    rw [hs, ht] at hborrow
    obtain ⟨rfl, hregistry⟩ : answer' = answer.mapError (·.rename ν) ∧ r.Mirrors ν r' := hborrow
    have hlent := h.withRegistry hregistry
    cases answer with
    | error e => exact ⟨congrArg some (LoanError.fault_rename ν e source), hlent.ensureHolder holder kind⟩
    | ok id =>
      simp only [Except.mapError]
      rcases hlent.prepareHolder holder kind id with ⟨fault, hs', ht'⟩ | ⟨s', t', hs', ht', hstored⟩
      · rw [hs', ht']
        exact ⟨rfl, h.withRegistry (hregistry.release id)⟩
      · rw [hs', ht']
        exact ⟨rfl, hstored⟩

/-! ## All operations -/

theorem guarded {α : Type} (h : s.Mirrors ν t) (check : Except Fault α) {change change' : α → Registry}
    (hchange : ∀ a, (change a).Mirrors ν (change' a)) :
    Alike ν (s.guarded check change) (t.guarded (check.mapError (·.rename ν)) change') := by
  cases check with
  | error fault => exact ⟨rfl, h⟩
  | ok a => exact ⟨rfl, h.withRegistry (hchange a)⟩

theorem apply (h : s.Mirrors ν t) (op : Operation) : Alike ν (s.apply op) (t.apply (op.rename ν)) := by
  cases op with
  | scopeBegin id => exact h.beginScope id
  | scopeEnd id => exact h.endScope id
  | bind target init mutable perms facts => exact h.bind target init mutable perms facts
  | borrow source kind holder region => exact h.borrow source kind holder region
  | project p facts =>
    rw [Operation.rename, Session.apply, Session.apply, project, project, h.checkPath, Place.isVar_rename]
    refine h.guarded _ fun _ => ?_
    split
    next => exact h.registry
    next => exact (h.registry.registerFacts p facts).registry
  | move p =>
    rw [Operation.rename, Session.apply, Session.apply, h.checkMove]
    exact h.guarded _ fun _ => h.registry.withdraw p
  | copy p =>
    rw [Operation.rename, Session.apply, Session.apply, h.checkCopy]
    refine h.guarded _ fun moves => ?_
    split
    next => exact h.registry.withdraw p
    next => exact h.registry
  | mutate p =>
    rw [Operation.rename, Session.apply, Session.apply, h.checkAccess]
    exact h.guarded _ fun _ => h.registry
  | access p needs =>
    rw [Operation.rename, Session.apply, Session.apply, h.checkAccess]
    exact h.guarded _ fun _ => h.registry
  | drop p =>
    rw [Operation.rename, Session.apply, Session.apply, h.checkDrop]
    exact h.guarded _ fun _ => h.registry.withdraw p
  | release p =>
    rw [Operation.rename, Session.apply, Session.apply, h.checkPath]
    exact h.guarded _ fun _ => h.registry.releaseHeldBy p
  | split array boundary =>
    rw [Operation.rename, Session.apply, Session.apply, h.checkLive, h.currentScope]
    exact h.guarded _ fun _ => h.registry.split array boundary s.currentScope
  | unchecked p => exact ⟨rfl, h⟩

/-! ## Steps and runs -/

theorem refreshed (h : s.Mirrors ν t) : s.refreshed.Mirrors ν t.refreshed := by
  have hexpired : (s.registry.expire s.next).Mirrors ν (t.registry.expire t.next) := by
    rw [h.next]
    exact h.registry.expire s.next
  exact h.withRegistry hexpired

theorem step (h : s.Mirrors ν t) (op : Operation) :
    (t.step (op.rename ν)).1 = (s.step op).1.rename ν ∧ (s.step op).2.Mirrors ν (t.step (op.rename ν)).2 := by
  cases hstop : s.stopped with
  | true =>
    rw [step_of_stopped hstop, step_of_stopped (h.stopped.trans hstop)]
    exact ⟨rfl, h.config, h.registry, h.scopes, h.ends, congrArg (· + 1) h.next, h.stopped⟩
  | false =>
    obtain ⟨hfault, hsession⟩ := h.refreshed.apply op
    have hnext : t.next + 1 = s.next + 1 := congrArg (· + 1) h.next
    rcases s.step_cases hstop op with ⟨hnone, hs⟩ | ⟨fault, hsome, hs⟩
    · rw [hnone] at hfault
      rcases t.step_cases (h.stopped.trans hstop) (op.rename ν) with ⟨-, ht⟩ | ⟨fault', hsome', -⟩
      · rw [hs, ht]
        exact ⟨rfl, hsession.config, hsession.registry, hsession.scopes, hsession.ends, hnext, hsession.stopped⟩
      · rw [hfault] at hsome'
        exact absurd hsome' (by simp)
    · rw [hsome] at hfault
      rcases t.step_cases (h.stopped.trans hstop) (op.rename ν) with ⟨hnone', -⟩ | ⟨fault', hsome', ht⟩
      · rw [hfault] at hnone'
        exact absurd hnone' (by simp)
      · obtain rfl : fault.rename ν = fault' := Option.some.inj (hfault.symm.trans hsome')
        have hstops : t.stopsOn (fault.rename ν) = s.stopsOn fault := by
          rw [stopsOn, stopsOn, h.config, Fault.rename_kind]
        rw [hs, ht, hstops, h.next]
        exact ⟨rfl, hsession.config, hsession.registry, hsession.scopes, hsession.ends, rfl, rfl⟩

theorem stepAll (h : s.Mirrors ν t) (ops : List Operation) :
    (t.stepAll (ops.map (·.rename ν))).1 = (s.stepAll ops).1.map (·.rename ν) ∧
      (s.stepAll ops).2.Mirrors ν (t.stepAll (ops.map (·.rename ν))).2 := by
  induction ops generalizing s t with
  | nil => exact ⟨rfl, h⟩
  | cons op ops ih =>
    obtain ⟨hverdict, hstep⟩ := h.step op
    obtain ⟨hverdicts, hall⟩ := ih hstep
    refine ⟨?_, hall⟩
    simp only [List.map_cons, Session.stepAll, hverdict, hverdicts]

theorem run (h : s.Mirrors ν t) (ops : List Operation) :
    (t.run (ops.map (·.rename ν))).1 = (s.run ops).1.map (·.rename ν) ∧
      (s.run ops).2.Mirrors ν (t.run (ops.map (·.rename ν))).2 := by
  have hpaired : (s.paired ops).Mirrors ν (t.paired (ops.map (·.rename ν))) := by
    refine ⟨h.config, h.registry, h.scopes, fun i => ?_, h.next, h.stopped⟩
    rw [paired, paired, h.next, Scope.pairs_rename, List.lookup_append, List.lookup_append, h.ends]
  exact hpaired.stepAll ops

end Mirrors

end Session

/-! ## The order of declarations -/

namespace Store

/-- Declarations are listed in the order in which they were made. -/
structure Ordered (store : Store) : Prop where
  increasing : store.decls.Pairwise (·.order < ·.order)
  bounded : ∀ decl ∈ store.decls, decl.order < store.nextOrder

namespace Ordered

variable {store store' : Store}

theorem declare (h : store.Ordered) {p : Place} {request : DeclareRequest} (hstore : store.declare p request = .ok store') :
    store'.Ordered := by
  rcases declare_eq_ok_iff.mp hstore with ⟨-, hvar⟩ | ⟨-, hpart⟩
  · obtain ⟨-, rfl⟩ := declareVar_eq_ok_iff.mp hvar
    have hold : ∀ decl ∈ store.decls.filter (·.name != p.root), decl.order < store.nextOrder :=
      fun decl hdecl => h.bounded decl (List.mem_of_mem_filter hdecl)
    constructor
    · refine List.pairwise_append.mpr ⟨h.increasing.sublist List.filter_sublist, List.pairwise_singleton _ _, ?_⟩
      intro decl hdecl new hnew
      rw [List.mem_singleton.mp hnew]
      exact hold decl hdecl
    · intro decl hdecl
      rcases List.mem_append.mp hdecl with hdecl | hnew
      · exact Nat.lt_succ_of_lt (hold decl hdecl)
      · rw [List.mem_singleton.mp hnew]
        exact Nat.lt_succ_self _
  · obtain ⟨-, -, -, rfl⟩ := reinitialise_eq_ok_iff.mp hpart
    exact ⟨h.increasing, h.bounded⟩

theorem update (h : store.Ordered) (x : Symbol) {f : Declaration → Declaration} (hf : ∀ decl, (f decl).order = decl.order) :
    (store.update x f).Ordered := by
  have hkept : ∀ decl : Declaration, (if decl.name = x then f decl else decl).order = decl.order := by
    intro decl
    split
    · exact hf decl
    · rfl
  constructor
  · refine List.pairwise_map.mpr (h.increasing.imp fun hlt => ?_)
    rw [hkept, hkept]
    exact hlt
  · intro decl hdecl
    obtain ⟨old, hold, rfl⟩ := List.mem_map.mp hdecl
    rw [hkept]
    exact h.bounded old hold

theorem retire (h : store.Ordered) (p : Place) : (store.retire p).Ordered := by
  rw [Store.retire]
  split
  · exact h.update p.root fun _ => rfl
  · exact ⟨h.increasing, h.bounded⟩

theorem change {declared : Place → Prop} {r r' : Registry} (hchange : Registry.Change declared r r')
    (h : r.store.Ordered) : r'.store.Ordered := by
  cases hchange with
  | declare _ hstore => exact h.declare hstore
  | describe hstore =>
    obtain ⟨-, rfl⟩ := registerFacts_eq_ok_iff.mp hstore
    exact ⟨h.increasing, h.bounded⟩
  | assign hstore =>
    obtain ⟨-, rfl⟩ := assignHolder_eq_ok_iff.mp hstore
    exact h.update _ fun _ => rfl
  | retire => exact h.retire _
  | _ => exact h

/-- The live variables of a scope come in the reverse order of their declarations, from whichever list of all
declarations they are picked. -/
theorem liveIn_eq_mergeSort (h : store.Ordered) {decls : List Declaration} (hperm : decls.Perm store.decls)
    (scope : ScopeId) :
    store.liveIn scope =
      (decls.filter fun decl => decl.live && decl.scope == scope).mergeSort fun a b => b.order ≤ a.order := by
  have hdescending : (store.liveIn scope).Pairwise fun a b => b.order < a.order :=
    List.pairwise_reverse.mpr (h.increasing.sublist List.filter_sublist)
  have hdistinct : ((store.liveIn scope).map (·.order)).Nodup := List.pairwise_map.mpr (hdescending.imp Nat.ne_of_gt)
  have hweakly : (store.liveIn scope).Pairwise fun a b => b.order ≤ a.order := hdescending.imp Nat.le_of_lt
  have hsame : (store.liveIn scope).Perm
      ((decls.filter fun decl => decl.live && decl.scope == scope).mergeSort fun a b => b.order ≤ a.order) :=
    (List.reverse_perm _).trans ((hperm.filter _).symm.trans (List.mergeSort_perm _ _).symm)
  -- no two declarations have the same position, so there is one way to sort them
  refine List.Perm.eq_of_pairwise ?_ hweakly ?_ hsame
  · intro a b ha hb hle hge
    exact List.inj_on_of_nodup_map hdistinct ha (hsame.mem_iff.mpr hb) (Nat.le_antisymm hge hle)
  · have htrans : ∀ a b c : Declaration, decide (b.order ≤ a.order) = true → decide (c.order ≤ b.order) = true →
        decide (c.order ≤ a.order) = true := by
      simp only [decide_eq_true_eq]
      omega
    have htotal : ∀ a b : Declaration, (decide (b.order ≤ a.order) || decide (a.order ≤ b.order)) = true := by
      simp only [Bool.or_eq_true, decide_eq_true_eq]
      omega
    simpa only [decide_eq_true_eq] using List.pairwise_mergeSort htrans htotal _

end Ordered

end Store

theorem Session.Reachable.ordered {config : Config} {s : Session} (h : Reachable config s) : s.store.Ordered :=
  Later.invariant (P := fun r => r.store.Ordered) (fun _ _ _ _ _ hchange => Store.Ordered.change hchange) h
    ⟨List.Pairwise.nil, fun _ hdecl => absurd hdecl List.not_mem_nil⟩

theorem Session.mirrors_start (ν : Renaming) (config : Config) : Mirrors ν { config } { config } where
  config := rfl
  registry := ⟨⟨rfl, by simp, fun _ => rfl, rfl⟩, rfl, rfl⟩
  scopes := by simp [OpenScope.rename, ν.scope_root]
  ends _ := rfl
  next := rfl
  stopped := rfl

/-- A session mirrors the same sessions when it lists what was moved out in another order. -/
theorem Session.Mirrors.relist {s t : Session} (h : s.Mirrors ν t) {retired : List Place}
    (hperm : retired.Perm t.store.retired) :
    s.Mirrors ν { t with registry := { t.registry with store := { t.store with retired } } } := by
  have hsame : ∀ q, q ∈ retired ↔ ∃ p ∈ s.store.retired, p.rename ν = q :=
    fun q => hperm.mem_iff.trans (h.store.retired q)
  exact h.withRegistry (h.registry.withStore ⟨h.store.decls, hsame, h.store.facts, h.store.nextOrder⟩)

/-- **Names do not matter.** For every renaming, checking a renamed stream gives the renamed verdicts. The same holds from
any two sessions of which one is the other renamed, however they number places and list what was moved out, what is known
of parts and where scopes end. And the variables that die with a scope die in the same order, however the declarations are
listed. -/
theorem verdicts_equivariant (ν : Renaming) :
    (∀ config ops, checkWith config (ops.map (·.rename ν)) = (checkWith config ops).map (·.rename ν)) ∧
    (∀ s t : Session, s.Mirrors ν t → ∀ ops,
      (t.run (ops.map (·.rename ν))).1 = (s.run ops).1.map (·.rename ν) ∧
      (s.run ops).2.Mirrors ν (t.run (ops.map (·.rename ν))).2) ∧
    ∀ config s, Session.Reachable config s → ∀ decls : List Declaration, decls.Perm s.store.decls → ∀ scope,
      s.store.liveIn scope =
        (decls.filter fun decl => decl.live && decl.scope == scope).mergeSort fun a b => b.order ≤ a.order :=
  ⟨fun config ops => ((Session.mirrors_start ν config).run ops).1, fun _ _ h ops => h.run ops,
    fun _ _ hs _ hperm scope => hs.ordered.liveIn_eq_mergeSort hperm scope⟩

/-- The renaming that interchanges two names and two scopes. -/
def Renaming.interchange (x y : Symbol) (a b : ScopeId) (ha : .root ≠ a) (hb : .root ≠ b) : Renaming where
  symbol := Equiv.swap x y
  scope := Equiv.swap a b
  symbol_injective := (Equiv.swap x y).injective
  scope_injective := (Equiv.swap a b).injective
  scope_root := Equiv.swap_apply_of_ne_of_ne ha hb

/-- Two fields are moved out, and the renamed session lists them the other way round. -/
theorem moved_fields_listed_otherwise :
    let ν := Renaming.interchange ⟨0⟩ ⟨1⟩ ⟨1⟩ ⟨2⟩ (by decide) (by decide)
    let ops : List Operation := [.scopeBegin ⟨1⟩, .bindFreshMut (.var ⟨0⟩), .bindFreshMut (.var ⟨1⟩),
      .move ⟨⟨0⟩, [.field ⟨1⟩]⟩, .move ⟨⟨0⟩, [.field ⟨2⟩]⟩]
    let later : List Operation := [.borrowExclusive (.var ⟨1⟩) (.var ⟨2⟩) (.scope ⟨1⟩), .read ⟨⟨0⟩, [.field ⟨1⟩]⟩,
      .read (.var ⟨1⟩), .scopeEnd ⟨1⟩]
    let s := (({} : Session).run ops).2
    let t := (({} : Session).run (ops.map (·.rename ν))).2
    let retired : List Place := [⟨⟨1⟩, [.field ⟨0⟩]⟩, ⟨⟨1⟩, [.field ⟨2⟩]⟩]
    let t' := { t with registry := { t.registry with store := { t.store with retired } } }
    t.store.retired = retired.reverse ∧
    (t'.run (later.map (·.rename ν))).1 = (s.run later).1.map (·.rename ν) ∧
    (s.run later).1.map (·.isOk) = [true, false, false, true] ∧
    checkWith {} ((ops ++ later).map (·.rename ν)) = (checkWith {} (ops ++ later)).map (·.rename ν) ∧
    s.store.liveIn ⟨1⟩ = (s.store.decls.reverse.filter fun decl => decl.live && decl.scope == ⟨1⟩).mergeSort
      fun a b => b.order ≤ a.order := by
  intro ν ops later s t retired t'
  have hlisted : t.store.retired = retired.reverse := by decide
  have hmirrors : s.Mirrors ν t := ((verdicts_equivariant ν).2.1 {} {} (Session.mirrors_start ν {}) ops).2
  have hmirrors' : s.Mirrors ν t' := hmirrors.relist (hlisted ▸ (List.reverse_perm retired).symm)
  exact ⟨hlisted, ((verdicts_equivariant ν).2.1 s t' hmirrors' later).1, by decide, (verdicts_equivariant ν).1 {} _,
    (verdicts_equivariant ν).2.2 {} s ((Session.Reachable.start {}).run ops) _ (List.reverse_perm _) ⟨1⟩⟩

end BorrowChecker
