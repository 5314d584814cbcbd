import BorrowChecker.Loan.Basic
import BorrowChecker.Place.Printer

/-!
# Verdicts

Every operation gets a verdict. A violation says what rule was broken, at which place, which loan stands behind it,
and at which operation.
-/

namespace BorrowChecker

/-! ## Kinds of violation -/

inductive ViolationKind where
  | duplicatePath
  | useAfterMove
  | missingRead
  | missingWrite
  | missingOwn
  | conflictingBorrow
  | loanOutlivesSource
  | invalidDrop
  | unknownPath
  | unbalancedScope
  | invalidRegion
deriving DecidableEq, Repr

namespace ViolationKind

/-- The kind in one phrase. -/
def phrase : ViolationKind → String
  | .duplicatePath => "path is already declared"
  | .useAfterMove => "use of moved value"
  | .missingRead => "missing read permission"
  | .missingWrite => "missing write permission"
  | .missingOwn => "missing own permission"
  | .conflictingBorrow => "conflicting borrow"
  | .loanOutlivesSource => "loan outlives its source"
  | .invalidDrop => "drop of non-owning path"
  | .unknownPath => "unknown path"
  | .unbalancedScope => "unbalanced scope"
  | .invalidRegion => "invalid loan region"

/-- The kind by its identifier, as machine-readable answers show it. -/
def identifier : ViolationKind → String
  | .duplicatePath => "DuplicatePath"
  | .useAfterMove => "UseAfterMove"
  | .missingRead => "MissingReadPermission"
  | .missingWrite => "MissingWritePermission"
  | .missingOwn => "MissingOwnPermission"
  | .conflictingBorrow => "ConflictingBorrow"
  | .loanOutlivesSource => "LoanOutlivesSource"
  | .invalidDrop => "InvalidDrop"
  | .unknownPath => "UnknownPath"
  | .unbalancedScope => "UnbalancedScope"
  | .invalidRegion => "InvalidRegion"

/-- All kinds. -/
def all : List ViolationKind :=
  [.duplicatePath, .useAfterMove, .missingRead, .missingWrite, .missingOwn, .conflictingBorrow,
    .loanOutlivesSource, .invalidDrop, .unknownPath, .unbalancedScope, .invalidRegion]

/-- The kind with a given identifier. -/
def ofIdentifier? (s : String) : Option ViolationKind := all.find? (·.identifier == s)

/-- After a fatal violation nothing more is checked: dropping what is not owned leaves no state to go on from. -/
def isFatal (kind : ViolationKind) : Bool := kind == .invalidDrop

/-- The sentence about the place `p` that a message opens with. -/
def headline (p : String) : ViolationKind → String
  | .duplicatePath => "`" ++ p ++ "` is already declared"
  | .useAfterMove => "`" ++ p ++ "` has been moved out or dropped and can no longer be used"
  | .missingRead => "cannot read `" ++ p ++ "`"
  | .missingWrite => "cannot write to `" ++ p ++ "`"
  | .missingOwn => "cannot move out of or drop `" ++ p ++ "`"
  | .conflictingBorrow => "cannot access `" ++ p ++ "` because it is already borrowed"
  | .loanOutlivesSource => "borrow involving `" ++ p ++ "` outlives what it borrows from"
  | .invalidDrop => "cannot drop `" ++ p ++ "` because it does not own its value"
  | .unknownPath => "`" ++ p ++ "` is not declared"
  | .unbalancedScope => "scope is not the innermost open scope"
  | .invalidRegion => "borrow of `" ++ p ++ "` has a region that does not cover it"

end ViolationKind

/-! ## Violations -/

/-- What a diagnostic tells about a loan. -/
structure LoanInfo where
  id : LoanId
  source : Place
  kind : BorrowKind
  holder : Place
  created : Nat
deriving DecidableEq, Repr

def Loan.info (loan : Loan) : LoanInfo :=
  ⟨loan.id, loan.source, loan.kind, loan.holder, loan.created⟩

/-- A broken rule, before it is known at which operation. -/
structure Fault where
  kind : ViolationKind
  place : Option Place := none
  loan : Option LoanInfo := none
deriving DecidableEq, Repr

/-- A fault at one place, with the loan behind it if there is one. -/
def Fault.about (kind : ViolationKind) (p : Place) (loan : Option Loan := none) : Fault :=
  ⟨kind, some p, loan.map Loan.info⟩

/-- A scope was opened twice, or closed while it was not the innermost one. -/
def Fault.unbalanced : Fault := ⟨.unbalancedScope, none, none⟩

/-- A broken rule at the operation with a given index. -/
structure Violation extends Fault where
  index : Nat
deriving DecidableEq, Repr

/-- The loan as a message mentions it. -/
def LoanInfo.render (names : Interner) (loan : LoanInfo) : String :=
  (if loan.kind.isShared then "shared" else "exclusive") ++ " borrow of `" ++ loan.source.render names ++
    "` by `" ++ loan.holder.render names ++ "` (operation " ++ toString loan.created ++ ")"

namespace Violation

/-- The violation in one line without names. -/
def summary (v : Violation) : String :=
  v.kind.phrase ++ " at operation " ++ toString v.index

/-- The violation in full, with the loan behind it after a colon. -/
def message (names : Interner) (v : Violation) : String :=
  v.kind.headline (v.place.elim "" (·.render names)) ++
    v.loan.elim "" fun loan => ": " ++ loan.render names

end Violation

/-! ## Verdicts -/

inductive Verdict where
  | ok
  /-- Not looked at, because checking had stopped. -/
  | unchecked
  | violation (v : Violation)
deriving DecidableEq, Repr

namespace Verdict

def violation? : Verdict → Option Violation
  | .violation v => some v
  | _ => none

/-- Whether the operation goes through; only a violation does not. -/
def isOk (verdict : Verdict) : Bool := verdict.violation?.isNone

end Verdict

end BorrowChecker
