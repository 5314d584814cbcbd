import BorrowChecker.Loan.Basic

/-!
# Settings of a session
-/

namespace BorrowChecker

/-- Whether checking goes on after a violation. -/
inductive Mode where
  | failFast
  | collectAll
deriving DecidableEq, Repr

instance : Inhabited Mode := ⟨.collectAll⟩

structure Config where
  mode : Mode := .collectAll
  nesting : Nesting := .strict
deriving DecidableEq, Repr, Inhabited

/-! ## Names of the settings -/

namespace Mode

def identifier : Mode → String
  | .failFast => "fail-fast"
  | .collectAll => "collect-all"

def ofIdentifier? (s : String) : Option Mode :=
  [failFast, collectAll].find? (·.identifier == s)

end Mode

namespace Nesting

def identifier : Nesting → String
  | .strict => "strict"
  | .allowEqual => "allow-equal"

def ofIdentifier? (s : String) : Option Nesting :=
  [strict, allowEqual].find? (·.identifier == s)

end Nesting

end BorrowChecker
