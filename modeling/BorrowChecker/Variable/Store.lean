import BorrowChecker.Loan.Ledger
import BorrowChecker.Variable.Basic

/-!
# The store of variables

The store keeps one declaration per variable, in order of declaration, the parts that have been moved out of live
variables, and the facts known of single parts. A declaration starts a new life of its variable: what was known of
the parts of an earlier life is forgotten.
-/

namespace BorrowChecker

/-- The declared variables and what has happened to their parts. -/
structure Store where
  /-- At most one declaration per variable, the latest last. -/
  decls : List Declaration := []
  /-- The parts that have been moved out or dropped. -/
  retired : List Place := []
  /-- The parts whose facts are known apart from their variable's, the latest entry first. -/
  facts : List (Place × TypeFacts) := []
  nextOrder : Nat := 0
deriving DecidableEq, Repr, Inhabited

namespace Store

/-! ## Questions -/

def find? (store : Store) (x : Symbol) : Option Declaration :=
  store.decls.find? (·.name == x)

/-- The declaration of the variable that `p` starts at. -/
def rootOf (store : Store) (p : Place) : Except StoreError Declaration :=
  match store.find? p.root with
  | some decl => .ok decl
  | none => .error .unknown

/-- Whether some of the storage that `p` may name has been moved out. -/
def isRetired (store : Store) (p : Place) : Bool :=
  store.retired.any (·.overlaps p)

/-- The declaration behind `p`, if all of `p` is still in place. -/
def checkLive (store : Store) (p : Place) : Except StoreError Declaration :=
  match store.rootOf p with
  | .error e => .error e
  | .ok decl => if !decl.live || store.isRetired p then .error .moved else .ok decl

/-- The facts entered for exactly this part. -/
def factsAt? (store : Store) (p : Place) : Option TypeFacts :=
  if p.isVar then none else store.facts.lookup p

/-- The facts of the value at `p`, whose variable has the declaration `decl`: those of the closest part on the way
that has its own, else those of the variable. -/
def factsUnder (store : Store) (decl : Declaration) (p : Place) : TypeFacts :=
  ((p :: p.ancestors).findSome? store.factsAt?).getD decl.facts

/-- The facts of the value at `p`, if its variable is declared. -/
def factsOf? (store : Store) (p : Place) : Option TypeFacts :=
  (store.find? p.root).map (store.factsUnder · p)

/-- What may be done with `p` as far as its declaration goes. Behind a reference that is what the reference
grants, and only an owning value is owned. -/
def declared (store : Store) (p : Place) : Except StoreError PermSet :=
  match store.rootOf p with
  | .error e => .error e
  | .ok decl =>
    let perms :=
      match decl.holder, p.path.head? with
      | some kind, some .deref => kind.grants
      | _, _ => decl.perms
    .ok (if (store.factsUnder decl p).owning then perms else perms \ .own)

/-- What may be done with `p` now: nothing once it is moved out, else what is declared less what loans suspend. -/
def permissions (store : Store) (ledger : Ledger) (p : Place) : Except StoreError PermSet :=
  match store.checkLive p with
  | .ok _ => (store.declared p).map (· \ ledger.suspended p)
  | .error .unknown => .error .unknown
  | .error _ => .ok ∅

/-- The live variables of a scope, the latest first. -/
def liveIn (store : Store) (scope : ScopeId) : List Declaration :=
  (store.decls.filter fun decl => decl.live && decl.scope == scope).reverse

/-! ## Changes -/

def update (store : Store) (x : Symbol) (f : Declaration → Declaration) : Store :=
  { store with decls := store.decls.map fun decl => if decl.name = x then f decl else decl }

/-- Starts a life of the variable `p` if it is not alive. -/
def declareVar (store : Store) (p : Place) (request : DeclareRequest) : Except StoreError Store :=
  if (store.find? p.root).any (·.live) then .error .duplicate
  else
    .ok {
      decls := store.decls.filter (·.name != p.root) ++ [{
        name := p.root
        place := p
        perms := request.granted
        facts := request.facts
        scope := request.scope
        order := store.nextOrder
        mutable := request.mutable
        holder := request.holder
        live := true }]
      retired := store.retired.filter (·.root != p.root)
      facts := store.facts.filter (·.1.root != p.root)
      nextOrder := store.nextOrder + 1 }

/-- Enters facts for exactly one part, in place of earlier ones. -/
def setFacts (store : Store) (p : Place) (facts : TypeFacts) : Store :=
  { store with facts := (p, facts) :: store.facts.filter (·.1 != p) }

/-- Puts a value back into a part that was moved out. The part has to be writable and wholly vacant: something of it
has been moved out, and nothing around it. -/
def reinitialise (store : Store) (p : Place) (request : DeclareRequest) : Except StoreError Store :=
  match store.rootOf p with
  | .error e => .error e
  | .ok decl =>
    if !decl.live then .error .moved
    else if ¬ PermSet.write ⊆ decl.perms then .error .notMutable
    else if store.retired.any fun r => !p.isPrefixOf r && p.overlaps r then .error .moved
    else if !store.retired.any (p.isPrefixOf ·) then .error .duplicate
    else .ok ({ store with retired := store.retired.filter (!p.isPrefixOf ·) }.setFacts p request.facts)

/-- Declares a variable, or puts a value back into a part of one. -/
def declare (store : Store) (p : Place) (request : DeclareRequest) : Except StoreError Store :=
  if p.isVar then store.declareVar p request else store.reinitialise p request

/-- Enters what is known of the value at `p`. -/
def registerFacts (store : Store) (p : Place) (facts : TypeFacts) : Except StoreError Store :=
  match store.rootOf p with
  | .error e => .error e
  | .ok _ => .ok (store.setFacts p facts)

/-- Marks `p` as moved out. -/
def retire (store : Store) (p : Place) : Store :=
  if p.isVar then store.update p.root ({ · with live := false })
  else { store with retired := store.retired.insert p }

/-- Stores a reference into a live mutable variable, which is from then on its holder. -/
def assignHolder (store : Store) (x : Symbol) (kind : BorrowKind) : Except StoreError Store :=
  match store.find? x with
  | none => .error .unknown
  | some decl =>
    if !decl.live then .error .moved
    else if !decl.mutable then .error .notMutable
    else .ok (store.update x fun decl =>
      { decl with perms := .readWrite, facts := .reference kind, holder := some kind })

/-! ## Liveness -/

theorem rootOf_eq_ok_iff {store : Store} {p : Place} {decl : Declaration} :
    store.rootOf p = .ok decl ↔ store.find? p.root = some decl := by
  rw [rootOf]
  cases store.find? p.root <;> simp

theorem isRetired_eq_false_iff {store : Store} {p : Place} :
    store.isRetired p = false ↔ ∀ q ∈ store.retired, q.overlaps p = false := by
  simp [isRetired]

/-- A place is live if its variable is and nothing that overlaps it has been moved out. -/
theorem checkLive_eq_ok_iff {store : Store} {p : Place} {decl : Declaration} :
    store.checkLive p = .ok decl ↔
      store.find? p.root = some decl ∧ decl.live = true ∧ ∀ q ∈ store.retired, q.overlaps p = false := by
  rw [checkLive, ← rootOf_eq_ok_iff, ← isRetired_eq_false_iff]
  cases store.rootOf p with
  | error e => simp
  | ok d =>
    cases hlive : d.live <;> cases store.isRetired p <;> simp [hlive]
    · rintro rfl
      exact hlive
    · rintro rfl
      exact hlive

end Store

end BorrowChecker
