import BorrowChecker.Config.Basic
import BorrowChecker.Registry
import BorrowChecker.Scope
import BorrowChecker.Verdict

/-!
# Sessions

A session is the state of one check: what is known of storage, the open scopes, and the index of the operation that
comes next. While an operation is being applied, that index is its own.
-/

namespace BorrowChecker

structure Session where
  config : Config := {}
  registry : Registry := {}
  /-- The open scopes, innermost first. -/
  scopes : List OpenScope := [⟨.root, lastIndex⟩]
  /-- Operations known to open scopes, with the operations that close them; the latest entry for an index counts. -/
  pairs : List (Nat × Nat) := []
  /-- The index of the next operation. -/
  next : Nat := 0
  /-- Set when a violation has ended the check. -/
  stopped : Bool := false
deriving DecidableEq, Repr, Inhabited

namespace Session

def store (s : Session) : Store := s.registry.store

def ledger (s : Session) : Ledger := s.registry.ledger

def splits (s : Session) : Splits := s.registry.splits

/-- The innermost scope. -/
def currentScope (s : Session) : ScopeId := s.scopes.head?.elim .root (·.id)

/-- The facts of the value at `p`; a value of which nothing is known is taken to be owned. -/
def factsOf (s : Session) (p : Place) : TypeFacts := (s.store.factsOf? p).getD .owned

/-- What may be done with `p` now, if its variable is declared. -/
def permissions? (s : Session) (p : Place) : Option PermSet := (s.registry.permissions p).toOption

end Session

end BorrowChecker
