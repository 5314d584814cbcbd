import BorrowChecker.Proofs.Rules
import BorrowChecker.Session.Step

/-!
# Outcomes of operations

For each operation, the ways in which it can end: the checks that led there, the fault if there is one, and the session
that is left. Later proofs take an operation apart through these lemmas only.
-/

namespace BorrowChecker

/-! ## The registry -/

namespace Registry

theorem declare_cases (r : Registry) (p : Place) (request : DeclareRequest) :
    (∃ e, r.store.declare p request = .error e ∧ r.declare p request = (.error e, r.enter p)) ∨
    (∃ store, r.store.declare p request = .ok store ∧ r.declare p request = (.ok (), { r.enter p with store })) := by
  rw [declare]
  simp only [enter]
  cases hdeclare : r.store.declare p request with
  | error e => exact Or.inl ⟨e, rfl, rfl⟩
  | ok store => exact Or.inr ⟨store, rfl, rfl⟩

theorem assignHolder_cases (r : Registry) (x : Symbol) (kind : BorrowKind) :
    (∃ e, r.store.assignHolder x kind = .error e ∧ r.assignHolder x kind = (.error e, r)) ∨
    (∃ store, r.store.assignHolder x kind = .ok store ∧ r.assignHolder x kind = (.ok (), { r with store })) := by
  rw [assignHolder]
  cases hassign : r.store.assignHolder x kind with
  | error e => exact Or.inl ⟨e, rfl, rfl⟩
  | ok store => exact Or.inr ⟨store, rfl, rfl⟩

theorem borrow_cases (r : Registry) (request : LoanRequest) (nesting : Nesting) :
    (∃ e, r.ledger.borrow request nesting = .error e ∧
      r.borrow request nesting = (.error e, (r.enter request.source).enter request.holder)) ∨
    (∃ id ledger, r.ledger.borrow request nesting = .ok (id, ledger) ∧
      r.borrow request nesting = (.ok id, { (r.enter request.source).enter request.holder with ledger })) := by
  rw [borrow]
  simp only [enter]
  cases hborrow : r.ledger.borrow request nesting with
  | error e => exact Or.inl ⟨e, rfl, rfl⟩
  | ok result => exact Or.inr ⟨result.1, result.2, rfl, rfl⟩

end Registry

namespace Session

variable {s t : Session}

/-- An operation that is guarded by a check changes the registry if the check passes, and nothing if it does not. -/
theorem guarded_cases {α : Type} (check : Except Fault α) (change : α → Registry) :
    (∃ fault, check = .error fault ∧ s.guarded check change = (some fault, s)) ∨
    (∃ a, check = .ok a ∧ s.guarded check change = (none, { s with registry := change a })) := by
  cases check with
  | error fault => exact Or.inl ⟨fault, rfl, rfl⟩
  | ok a => exact Or.inr ⟨a, rfl, rfl⟩

theorem guarded_accepted {α : Type} {check : Except Fault α} {change : α → Registry}
    (h : (s.guarded check change).1 = none) :
    ∃ a, check = .ok a ∧ (s.guarded check change).2 = { s with registry := change a } := by
  rcases s.guarded_cases check change with ⟨fault, -, hguarded⟩ | ⟨a, hcheck, hguarded⟩
  · rw [hguarded] at h
    exact absurd h (by simp)
  · exact ⟨a, hcheck, by rw [hguarded]⟩

theorem guarded_eq_none_iff {α : Type} {check : Except Fault α} {change : α → Registry} :
    (s.guarded check change).1 = none ↔ ∃ a, check = .ok a := by
  cases check with
  | error fault => simp [guarded]
  | ok a => simp [guarded]

theorem guarded_unit_eq_none_iff {check : Except Fault Unit} {change : Unit → Registry} :
    (s.guarded check change).1 = none ↔ check = .ok () :=
  guarded_eq_none_iff.trans ⟨fun ⟨_, h⟩ => h, fun h => ⟨(), h⟩⟩

theorem guarded_rejected {α : Type} {check : Except Fault α} {change : α → Registry} {fault : Fault}
    (h : (s.guarded check change).1 = some fault) : check = .error fault := by
  rcases s.guarded_cases check change with ⟨other, hcheck, hguarded⟩ | ⟨a, -, hguarded⟩
  · rw [hguarded] at h
    rw [hcheck, Option.some.inj h]
  · rw [hguarded] at h
    exact absurd h (by simp)

/-! ## Scopes -/

/-- The variables that die with a scope, the latest first. -/
def dying (s : Session) (id : ScopeId) : List Place := (s.store.liveIn id).map (·.place)

/-- The registry when the variables of a closing scope are about to die. -/
def unwound (s : Session) (id : ScopeId) : Registry :=
  ((s.dying id).foldl Registry.releaseHeldBy (s.registry.releaseScope id)).discardSplits id

/-- Only the innermost scope can be closed, and never the outermost. -/
theorem endScope_cases (id : ScopeId) :
    ((id = .root ∨ s.currentScope ≠ id) ∧ s.endScope id = (some .unbalanced, s)) ∨
    (id ≠ .root ∧ s.currentScope = id ∧
      s.endScope id = (((s.unwound id).buryAll (s.dying id)).1,
        { s with registry := ((s.unwound id).buryAll (s.dying id)).2, scopes := s.scopes.tail })) := by
  rw [endScope, currentScope]
  cases hscopes : s.scopes with
  | nil =>
    -- no scope is open but the outermost, so it is the current one
    refine Or.inl ⟨?_, rfl⟩
    by_cases hid : id = .root
    · exact Or.inl hid
    · exact Or.inr fun h => hid h.symm
  | cons innermost outer =>
    by_cases hclose : id = .root ∨ innermost.id ≠ id
    · exact Or.inl ⟨hclose, if_pos hclose⟩
    · have hbalanced := not_or.mp hclose
      exact Or.inr ⟨hbalanced.1, not_not.mp hbalanced.2, if_neg hclose⟩

theorem beginScope_cases (id : ScopeId) :
    s.beginScope id = (some .unbalanced, s) ∨
    ((∀ scope ∈ s.scopes, scope.id ≠ id) ∧
      s.beginScope id =
        (none, { s with scopes := ⟨id, (s.pairs.lookup s.next).getD lastIndex⟩ :: s.scopes })) := by
  rw [beginScope]
  by_cases hopen : s.scopes.any (·.id == id) = true
  · exact Or.inl (if_pos hopen)
  · refine Or.inr ⟨?_, if_neg hopen⟩
    simpa using hopen

/-! ## Bindings -/

theorem checkInit_eq_ok_some_iff {init : Init} {p : Place} :
    s.checkInit init = .ok (some p) ↔
      (init = .move p ∧ s.checkMove p = .ok ()) ∨ (init = .copy p ∧ s.checkCopy p = .ok true) := by
  constructor
  · intro h
    cases init with
    | fresh => exact absurd h (by simp [checkInit])
    | move source =>
      obtain ⟨_, hmove, hsource⟩ := map_eq_ok_iff.mp h
      cases hsource
      exact Or.inl ⟨rfl, hmove⟩
    | copy source =>
      obtain ⟨moves, hcopy, hsource⟩ := map_eq_ok_iff.mp h
      cases moves with
      | false => exact absurd hsource (by simp)
      | true =>
        cases hsource
        exact Or.inr ⟨rfl, hcopy⟩
  · rintro (⟨rfl, hmove⟩ | ⟨rfl, hcopy⟩)
    · exact map_eq_ok_iff.mpr ⟨(), hmove, rfl⟩
    · exact map_eq_ok_iff.mpr ⟨true, hcopy, rfl⟩

/-- A value that is moved, or copied although it cannot be duplicated, comes out of its source. -/
theorem checkInit_moved {init : Init} {p : Place} {source : Option Place}
    (hinit : init = .move p ∨ (init = .copy p ∧ (s.factsOf p).duplicable = false))
    (h : s.checkInit init = .ok source) : source = some p := by
  rcases hinit with rfl | ⟨rfl, hdup⟩
  · obtain ⟨_, -, rfl⟩ := map_eq_ok_iff.mp h
    rfl
  · obtain ⟨moves, hcopy, rfl⟩ := map_eq_ok_iff.mp h
    rcases checkCopy_eq_ok_iff.mp hcopy with ⟨hdup', -⟩ | ⟨-, rfl, -⟩
    · rw [hdup] at hdup'
      exact Bool.noConfusion hdup'
    · rfl

theorem overlapping_of_checkInit {init : Init} {p : Place} (h : s.checkInit init = .ok (some p)) :
    s.ledger.overlapping p = [] := by
  rcases checkInit_eq_ok_some_iff.mp h with ⟨-, hmove⟩ | ⟨-, hcopy⟩
  · exact (checkMove_eq_ok_iff.mp hmove).2
  · exact overlapping_of_checkCopy hcopy

/-- A binding fails at its source, when the target is declared all the same, or at its target; or it goes through and
takes its value along. -/
theorem bind_cases (target : Place) (init : Init) (mutable : Bool) (perms : PermSet) (facts : TypeFacts) :
    (∃ fault, s.checkInit init = .error fault ∧
      s.bind target init mutable perms facts =
        (some fault, { s with registry := (s.registry.declare target ⟨perms, mutable, facts, s.currentScope, none⟩).2 })) ∨
    (∃ source e, s.checkInit init = .ok source ∧
      s.store.declare target (s.bindRequest (source.bind s.heldKind?) mutable perms facts) = .error e ∧
      s.bind target init mutable perms facts =
        (some (e.fault target), { s with registry := s.registry.enter target })) ∨
    (∃ source store, s.checkInit init = .ok source ∧
      s.store.declare target (s.bindRequest (source.bind s.heldKind?) mutable perms facts) = .ok store ∧
      s.bind target init mutable perms facts =
        (none, { s with
          registry := source.elim { s.registry.enter target with store }
            (Registry.relocate { s.registry.enter target with store } · target (source.bind s.heldKind?).isSome) })) := by
  rw [bind]
  cases hinit : s.checkInit init with
  | error fault => exact Or.inl ⟨fault, rfl, rfl⟩
  | ok source =>
    right
    rcases s.registry.declare_cases target (s.bindRequest (source.bind s.heldKind?) mutable perms facts) with
      ⟨e, hstore, hregistry⟩ | ⟨store, hstore, hregistry⟩
    · simp only [hregistry]
      exact Or.inl ⟨source, e, rfl, hstore, rfl⟩
    · simp only [hregistry]
      exact Or.inr ⟨source, store, rfl, hstore, rfl⟩

theorem bind_accepted {target : Place} {init : Init} {mutable : Bool} {perms : PermSet} {facts : TypeFacts}
    (hok : (s.bind target init mutable perms facts).1 = none) :
    ∃ source store, s.checkInit init = .ok source ∧
      s.store.declare target (s.bindRequest (source.bind s.heldKind?) mutable perms facts) = .ok store ∧
      (s.bind target init mutable perms facts).2 =
        { s with
          registry := source.elim { s.registry.enter target with store }
            (Registry.relocate { s.registry.enter target with store } · target
              (source.bind s.heldKind?).isSome) } := by
  rcases s.bind_cases target init mutable perms facts with
    ⟨fault, -, hbind⟩ | ⟨source, e, -, -, hbind⟩ | ⟨source, store, hinit, hstore, hbind⟩
  · rw [hbind] at hok
    exact absurd hok (by simp)
  · rw [hbind] at hok
    exact absurd hok (by simp)
  · exact ⟨source, store, hinit, hstore, by rw [hbind]⟩

/-! ## Loans -/

/-- What is asked of the store for a variable that is to hold a reference. -/
def holderRequest (s : Session) (kind : BorrowKind) : DeclareRequest :=
  ⟨kind.grants, false, .reference kind, s.currentScope, some kind⟩

theorem rootLive_iff {p : Place} : s.rootLive p = true ↔ s.store.Alive p.root := Iff.rfl

/-- The holder of a rejected loan is declared if it is a variable that is not alive. -/
theorem ensureHolder_cases (holder : Place) (kind : BorrowKind) :
    s.ensureHolder holder kind = s ∨
    (holder.isVar = true ∧ ¬ s.store.Alive holder.root ∧
      s.ensureHolder holder kind = { s with registry := (s.registry.declare holder (s.holderRequest kind)).2 }) := by
  rw [ensureHolder]
  by_cases h : (holder.isVar && !s.rootLive holder) = true
  · rw [if_pos h]
    simp only [Bool.and_eq_true, Bool.not_eq_true', ← Bool.not_eq_true, rootLive_iff] at h
    exact Or.inr ⟨h.1, h.2, rfl⟩
  · rw [if_neg h]
    exact Or.inl rfl

/-- A reference is stored where no other loan is taken: into a part that may be written, into a variable that is alive
and mutable, or into a variable that starts its life with it. -/
theorem prepareHolder_cases {holder : Place} {kind : BorrowKind} {id : LoanId}
    (h : s.prepareHolder holder kind id = .ok t) :
    (∀ loan ∈ s.ledger.overlapping holder, loan.id = id) ∧
    ((holder.isVar = false ∧ s.checkAccess holder .write = .ok () ∧ t = s) ∨
      (holder.isVar = true ∧ ∃ store, s.store.assignHolder holder.root kind = .ok store ∧
        t = { s with registry := { s.registry with store } }) ∨
      (holder.isVar = true ∧ ∃ store, s.store.declare holder (s.holderRequest kind) = .ok store ∧
        t = { s with registry := { s.registry.enter holder with store } })) := by
  rw [prepareHolder] at h
  split at h
  next loan _ => exact absurd h (by simp)
  next hfree =>
    refine ⟨by simpa using hfree, ?_⟩
    split at h
    next hvar =>
      left
      rw [Bool.not_eq_true'] at hvar
      obtain ⟨_, haccess, rfl⟩ := map_eq_ok_iff.mp h
      exact ⟨hvar, haccess, rfl⟩
    next hvar =>
      right
      have hvar : holder.isVar = true := by simpa using hvar
      split at h
      next =>
        rcases s.registry.assignHolder_cases holder.root kind with ⟨e, hstore, hregistry⟩ | ⟨store, hstore, hregistry⟩
        · rw [hregistry] at h
          exact absurd h (by simp)
        · rw [hregistry] at h
          cases h
          exact Or.inl ⟨hvar, store, hstore, rfl⟩
      next =>
        rw [declareHolder] at h
        rcases s.registry.declare_cases holder (s.holderRequest kind) with ⟨e, hstore, hregistry⟩ | ⟨store, hstore, hregistry⟩
        · rw [holderRequest] at hregistry
          rw [hregistry] at h
          exact absurd h (by simp)
        · rw [holderRequest] at hregistry
          rw [hregistry] at h
          cases h
          exact Or.inr ⟨hvar, store, hstore, rfl⟩

/-- A borrow fails at its source, at a loan that it goes through, or at its holder, and only then is the loan already
entered and taken back; or it goes through. -/
theorem borrow_cases (source : Place) (kind : BorrowKind) (holder : Place) (region : Region) :
    (∃ fault, s.checkBorrow source kind region = .error fault ∧
      s.borrow source kind holder region = (some fault, s.ensureHolder holder kind)) ∨
    (∃ stop, s.checkBorrow source kind region = .ok stop ∧
      ((∃ e, s.ledger.borrow ⟨source, kind, holder, region, stop, s.next⟩ s.config.nesting = .error e ∧
          s.borrow source kind holder region =
            (some (e.fault source),
              { s with registry := (s.registry.enter source).enter holder }.ensureHolder holder kind)) ∨
        (∃ id ledger,
          s.ledger.borrow ⟨source, kind, holder, region, stop, s.next⟩ s.config.nesting = .ok (id, ledger) ∧
          let lent : Session := { s with registry := { (s.registry.enter source).enter holder with ledger } }
          ((∃ fault, lent.prepareHolder holder kind id = .error fault ∧
              s.borrow source kind holder region = (some fault, { s with registry := lent.registry.release id })) ∨
            (∃ t, lent.prepareHolder holder kind id = .ok t ∧ s.borrow source kind holder region = (none, t)))))) := by
  rw [borrow]
  cases hcheck : s.checkBorrow source kind region with
  | error fault => exact Or.inl ⟨fault, rfl, rfl⟩
  | ok stop =>
    refine Or.inr ⟨stop, rfl, ?_⟩
    rcases s.registry.borrow_cases ⟨source, kind, holder, region, stop, s.next⟩ s.config.nesting with
      ⟨e, hledger, hregistry⟩ | ⟨id, ledger, hledger, hregistry⟩
    · simp only [hregistry]
      exact Or.inl ⟨e, hledger, rfl⟩
    · simp only [hregistry]
      refine Or.inr ⟨id, ledger, hledger, ?_⟩
      split
      next fault hprepare => exact Or.inl ⟨fault, hprepare, rfl⟩
      next t hprepare => exact Or.inr ⟨t, hprepare, rfl⟩

theorem borrow_accepted {source holder : Place} {kind : BorrowKind} {region : Region}
    (hok : (s.borrow source kind holder region).1 = none) :
    ∃ stop id ledger, s.checkBorrow source kind region = .ok stop ∧
      s.ledger.borrow ⟨source, kind, holder, region, stop, s.next⟩ s.config.nesting = .ok (id, ledger) ∧
      { s with registry := { (s.registry.enter source).enter holder with ledger } }.prepareHolder holder kind id =
        .ok (s.borrow source kind holder region).2 := by
  rcases s.borrow_cases source kind holder region with
    ⟨fault, -, hborrow⟩ | ⟨stop, hcheck, ⟨e, -, hborrow⟩ | ⟨id, ledger, hlend, hrest⟩⟩
  · rw [hborrow] at hok
    exact absurd hok (by simp)
  · rw [hborrow] at hok
    exact absurd hok (by simp)
  · rcases hrest with ⟨fault, -, hborrow⟩ | ⟨t, hprepare, hborrow⟩
    · rw [hborrow] at hok
      exact absurd hok (by simp)
    · exact ⟨stop, id, ledger, hcheck, hlend, by rw [hborrow]; exact hprepare⟩

/-! ## Steps -/

/-- The session in which the next operation is applied: the loans that have run out are gone. -/
def refreshed (s : Session) : Session := { s with registry := s.registry.expire s.next }

theorem step_of_stopped (hstop : s.stopped = true) (op : Operation) :
    s.step op = (.unchecked, { s with next := s.next + 1 }) := by
  rw [step, if_pos hstop]

/-- A step of a session that has not stopped applies the operation to the refreshed session. -/
theorem step_cases (hrun : s.stopped = false) (op : Operation) :
    ((s.refreshed.apply op).1 = none ∧ s.step op = (.ok, { (s.refreshed.apply op).2 with next := s.next + 1 })) ∨
    (∃ fault, (s.refreshed.apply op).1 = some fault ∧
      s.step op = (.violation { fault with index := s.next },
        { (s.refreshed.apply op).2 with next := s.next + 1, stopped := s.stopsOn fault })) := by
  have hgo : ¬ s.stopped = true := by rw [hrun]; exact Bool.false_ne_true
  rw [step, if_neg hgo, ← refreshed]
  rcases s.refreshed.apply op with ⟨_ | fault, t⟩
  · exact Or.inl ⟨rfl, rfl⟩
  · exact Or.inr ⟨fault, rfl, rfl⟩

/-- Whatever the verdict, a running session takes what the operation leaves, and goes on to the next index. -/
theorem step_running (hrun : s.stopped = false) (op : Operation) :
    ∃ stopped, (s.step op).2 = { (s.refreshed.apply op).2 with next := s.next + 1, stopped } := by
  rcases s.step_cases hrun op with ⟨-, hstep⟩ | ⟨fault, -, hstep⟩
  · exact ⟨_, by rw [hstep]⟩
  · exact ⟨_, by rw [hstep]⟩

theorem step_ok_iff (hrun : s.stopped = false) (op : Operation) :
    (s.step op).1 = .ok ↔ (s.refreshed.apply op).1 = none := by
  rcases s.step_cases hrun op with ⟨hnone, hstep⟩ | ⟨fault, hfault, hstep⟩
  · simp [hstep, hnone]
  · simp [hstep, hfault]

theorem step_ok {op : Operation} (hrun : s.stopped = false) (hnone : (s.refreshed.apply op).1 = none) :
    (s.step op).1 = .ok := (step_ok_iff hrun op).mpr hnone

theorem step_accepted {op : Operation} (hok : (s.step op).1 = .ok) :
    s.stopped = false ∧ (s.refreshed.apply op).1 = none ∧
      (s.step op).2 = { (s.refreshed.apply op).2 with next := s.next + 1 } := by
  cases hstop : s.stopped with
  | true =>
    rw [step_of_stopped hstop] at hok
    exact absurd hok (by simp)
  | false =>
    rcases s.step_cases hstop op with ⟨hnone, hstep⟩ | ⟨fault, -, hstep⟩
    · exact ⟨rfl, hnone, by rw [hstep]⟩
    · rw [hstep] at hok
      exact absurd hok (by simp)

theorem step_rejected {op : Operation} {v : Violation} (hv : (s.step op).1 = .violation v) :
    s.stopped = false ∧ (s.refreshed.apply op).1 = some v.toFault ∧
      (s.step op).2 = { (s.refreshed.apply op).2 with next := s.next + 1, stopped := s.stopsOn v.toFault } := by
  cases hstop : s.stopped with
  | true =>
    rw [step_of_stopped hstop] at hv
    exact absurd hv (by simp)
  | false =>
    rcases s.step_cases hstop op with ⟨-, hstep⟩ | ⟨fault, hsome, hstep⟩
    · rw [hstep] at hv
      exact absurd hv (by simp)
    · rw [hstep] at hv ⊢
      cases hv
      exact ⟨rfl, hsome, rfl⟩

end Session

end BorrowChecker
