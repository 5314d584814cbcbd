import BorrowChecker.Session.Check

/-!
# Steps of a session

One operation at a time: loans that have run out go first, then the operation is applied and judged. A rejected
operation leaves variables, loans and scopes as they are, with three exceptions: the target of a rejected binding is
declared all the same, so is a variable that a rejected borrow would have made a holder, and a scope closes even if
loans outlive what dies with it. Later operations then do not fail merely because of the first fault. A loan that is
taken back because its reference cannot be stored has used up its number.
-/

namespace BorrowChecker

/-! ## Ends of lives -/

namespace Registry

/-- Ends the life of a variable. The first of the loans that are left on it is a fault, and all of them end. They are
looked up by their numbers, which are listed beforehand. -/
def bury (r : Registry) (p : Place) : Option Fault × Registry :=
  let outliving := r.ledger.lentIds p
  ((outliving.head?.bind r.ledger.get?).map fun loan => .about .loanOutlivesSource p (some loan),
    (r.releaseEach outliving).withdraw p)

/-- Ends the lives of variables one after the other, and reports the first fault. -/
def buryAll (r : Registry) : List Place → Option Fault × Registry
  | [] => (none, r)
  | p :: ps =>
    let (fault, r) := r.bury p
    let (later, r) := r.buryAll ps
    (fault <|> later, r)

end Registry

namespace Session

/-! ## Scopes -/

/-- Opens a scope that is not open yet. -/
def beginScope (s : Session) (id : ScopeId) : Option Fault × Session :=
  if s.scopes.any (·.id == id) then (some .unbalanced, s)
  else (none, { s with scopes := ⟨id, (s.pairs.lookup s.next).getD lastIndex⟩ :: s.scopes })

/-- Closes the innermost scope: the loans tied to it end, then the loans held by its variables, then its splits, and
then the variables themselves, the latest first. -/
def endScope (s : Session) (id : ScopeId) : Option Fault × Session :=
  match s.scopes with
  | [] => (some .unbalanced, s)
  | innermost :: outer =>
    if id = .root ∨ innermost.id ≠ id then (some .unbalanced, s)
    else
      let dying := (s.store.liveIn id).map (·.place)
      let r := dying.foldl Registry.releaseHeldBy (s.registry.releaseScope id)
      let (fault, r) := (r.discardSplits id).buryAll dying
      (fault, { s with registry := r, scopes := outer })

/-! ## Bindings -/

/-- The place that an initial value is moved out of, if it is moved. -/
def checkInit (s : Session) : Init → Except Fault (Option Place)
  | .fresh => .ok none
  | .move source => (s.checkMove source).map fun _ => some source
  | .copy source => (s.checkCopy source).map fun moves => if moves then some source else none

/-- The kind of reference that moves with the value of `source`. Only whole variables are known to be holders. -/
def heldKind? (s : Session) (source : Place) : Option BorrowKind :=
  if source.isVar then (s.store.find? source.root).bind (·.holder) else none

/-- What is asked of the store for a binding. A moved reference stays a reference. -/
def bindRequest (s : Session) (held : Option BorrowKind) (mutable : Bool) (perms : PermSet) (facts : TypeFacts) :
    DeclareRequest :=
  match held with
  | some kind => ⟨kind.grants, mutable, .reference kind, s.currentScope, some kind⟩
  | none => ⟨perms, mutable, facts, s.currentScope, none⟩

def bind (s : Session) (target : Place) (init : Init) (mutable : Bool) (perms : PermSet) (facts : TypeFacts) :
    Option Fault × Session :=
  match s.checkInit init with
  | .error fault =>
    (some fault, { s with registry := (s.registry.declare target (s.bindRequest none mutable perms facts)).2 })
  | .ok source =>
    let held := source.bind s.heldKind?
    match s.registry.declare target (s.bindRequest held mutable perms facts) with
    | (.error e, r) => (some (e.fault target), { s with registry := r })
    | (.ok _, r) =>
      (none, { s with registry := source.elim r (r.relocate · target held.isSome) })

/-! ## Loans -/

/-- Declares a variable that is to hold a reference. -/
def declareHolder (s : Session) (holder : Place) (kind : BorrowKind) : Except StoreError Unit × Session :=
  let (result, r) := s.registry.declare holder ⟨kind.grants, false, .reference kind, s.currentScope, some kind⟩
  (result, { s with registry := r })

def rootLive (s : Session) (p : Place) : Bool := (s.store.find? p.root).any (·.live)

/-- Declares the holder of a rejected loan if it is a variable that does not exist. -/
def ensureHolder (s : Session) (holder : Place) (kind : BorrowKind) : Session :=
  if holder.isVar && !s.rootLive holder then (s.declareHolder holder kind).2 else s

/-- Makes room for the reference of the new loan `id`: nothing else may be lent from where it is stored. A variable
becomes a holder, and a part has to be writable. -/
def prepareHolder (s : Session) (holder : Place) (kind : BorrowKind) (id : LoanId) : Except Fault Session :=
  match ((s.ledger.overlapping holder).filter (·.id != id)).getLast? with
  | some loan => .error (.about .conflictingBorrow holder (some loan))
  | none =>
    if !holder.isVar then (s.checkAccess holder .write).map fun _ => s
    else if s.rootLive holder then
      match s.registry.assignHolder holder.root kind with
      | (.error e, _) => .error (e.fault holder)
      | (.ok _, r) => .ok { s with registry := r }
    else
      match s.declareHolder holder kind with
      | (.error e, _) => .error (e.fault holder)
      | (.ok _, s) => .ok s

/-- Lends `source` to `holder`. If the reference cannot be stored, the loan is taken back. -/
def borrow (s : Session) (source : Place) (kind : BorrowKind) (holder : Place) (region : Region) :
    Option Fault × Session :=
  match s.checkBorrow source kind region with
  | .error fault => (some fault, s.ensureHolder holder kind)
  | .ok stop =>
    match s.registry.borrow ⟨source, kind, holder, region, stop, s.next⟩ s.config.nesting with
    | (.error e, r) => (some (e.fault source), { s with registry := r }.ensureHolder holder kind)
    | (.ok id, r) =>
      match { s with registry := r }.prepareHolder holder kind id with
      | .error fault => (some fault, { s with registry := r.release id })
      | .ok s => (none, s)

/-! ## All operations -/

/-- Changes the registry if a check has passed. -/
def guarded {α : Type} (s : Session) (check : Except Fault α) (change : α → Registry) : Option Fault × Session :=
  match check with
  | .error fault => (some fault, s)
  | .ok a => (none, { s with registry := change a })

/-- Enters what is known of the value at a part. A variable has its facts from its declaration. -/
def project (s : Session) (p : Place) (facts : TypeFacts) : Option Fault × Session :=
  s.guarded (s.checkPath p) fun _ =>
    if p.isVar then s.registry else (s.registry.registerFacts p facts).2

/-- Applies an operation, and says what is wrong with it. -/
def apply (s : Session) : Operation → Option Fault × Session
  | .scopeBegin id => s.beginScope id
  | .scopeEnd id => s.endScope id
  | .bind place init mutable perms facts => s.bind place init mutable perms facts
  | .project place facts => s.project place facts
  | .move place => s.guarded (s.checkMove place) fun _ => s.registry.withdraw place
  | .copy place => s.guarded (s.checkCopy place) fun moves =>
      if moves then s.registry.withdraw place else s.registry
  | .borrow source kind holder region => s.borrow source kind holder region
  | .mutate place => s.guarded (s.checkAccess place .write) fun _ => s.registry
  | .access place needs => s.guarded (s.checkAccess place needs) fun _ => s.registry
  | .drop place => s.guarded (s.checkDrop place) fun _ => s.registry.withdraw place
  | .release holder => s.guarded (s.checkPath holder) fun _ => s.registry.releaseHeldBy holder
  | .split array boundary => s.guarded (s.checkLive array) fun _ =>
      (s.registry.split array boundary s.currentScope).2
  | .unchecked _ => (none, s)

/-- Whether a fault ends the check. -/
def stopsOn (s : Session) (fault : Fault) : Bool := s.config.mode == .failFast || fault.kind.isFatal

def step (s : Session) (op : Operation) : Verdict × Session :=
  if s.stopped then (.unchecked, { s with next := s.next + 1 })
  else
    match { s with registry := s.registry.expire s.next }.apply op with
    | (none, t) => (.ok, { t with next := s.next + 1 })
    | (some fault, t) =>
      (.violation { fault with index := s.next }, { t with next := s.next + 1, stopped := s.stopsOn fault })

def stepAll (s : Session) : List Operation → List Verdict × Session
  | [] => ([], s)
  | op :: ops =>
    let (verdict, s) := s.step op
    let (verdicts, s) := s.stepAll ops
    (verdict :: verdicts, s)

/-- Checks a stream of operations, whose scopes are paired first. -/
def run (s : Session) (ops : List Operation) : List Verdict × Session :=
  { s with pairs := Scope.pairs s.next ops ++ s.pairs }.stepAll ops

/-! ## Streams -/

theorem next_step (s : Session) (op : Operation) : (s.step op).2.next = s.next + 1 := by
  rw [step]
  split
  · rfl
  · split <;> rfl

theorem next_stepAll (s : Session) (ops : List Operation) : (s.stepAll ops).2.next = s.next + ops.length := by
  induction ops generalizing s with
  | nil => rfl
  | cons op ops ih =>
    simp only [stepAll, ih, next_step, List.length_cons]
    omega

/-- Every operation gets one verdict. -/
theorem length_stepAll (s : Session) (ops : List Operation) : (s.stepAll ops).1.length = ops.length := by
  induction ops generalizing s with
  | nil => rfl
  | cons op ops ih => simp [stepAll, ih]

theorem stepAll_append (s : Session) (xs ys : List Operation) :
    s.stepAll (xs ++ ys) =
      ((s.stepAll xs).1 ++ ((s.stepAll xs).2.stepAll ys).1, ((s.stepAll xs).2.stepAll ys).2) := by
  induction xs generalizing s with
  | nil => rfl
  | cons op xs ih => simp [stepAll, ih]

end Session

/-- The verdicts on a stream of operations. -/
def checkWith (config : Config) (ops : List Operation) : List Verdict :=
  ({ config } : Session).run ops |>.1

/-- The verdicts on a stream of operations when reborrows nest strictly. -/
def check (mode : Mode) (ops : List Operation) : List Verdict := checkWith { mode } ops

end BorrowChecker
