import BorrowChecker.Permission
import BorrowChecker.Place.Overlap

/-!
# Loans

A loan lends the storage of its source to its holder until the operation with index `stop`. While it lives it
suspends permissions on every place that overlaps the source: a shared loan leaves only reading, an exclusive one
nothing.
-/

namespace BorrowChecker

/-- The greatest operation index of 64 bits. It stands for the end of a scope that nothing is known to close. -/
def lastIndex : Nat := 18446744073709551615

/-- A scope by the number its opening operation gives it. -/
structure ScopeId where
  number : Nat
deriving DecidableEq, Repr, Inhabited

/-- The scope that is open from the start and never closes. -/
def ScopeId.root : ScopeId := ⟨0⟩

/-! ## Kinds -/

inductive BorrowKind where
  | shared
  | exclusive
deriving DecidableEq, Repr

namespace BorrowKind

def isShared : BorrowKind → Bool
  | .shared => true
  | .exclusive => false

/-- What a loan takes away from the places that overlap its source. -/
def suspends : BorrowKind → PermSet
  | .shared => .writeOwn
  | .exclusive => .all

/-- What a reference gives on the storage it points to. -/
def grants : BorrowKind → PermSet
  | .shared => .read
  | .exclusive => .readWrite

/-- What the source has to permit: exactly what the reference will give. -/
def requires (kind : BorrowKind) : PermSet := kind.grants

/-- Only readers can share storage. -/
def compatible (a b : BorrowKind) : Bool := a.isShared && b.isShared

end BorrowKind

/-! ## Regions and nesting -/

/-- How long a loan is asked to live. -/
inductive Region where
  /-- From one operation up to and including another. -/
  | span (start stop : Nat)
  /-- Until a scope closes. -/
  | scope (id : ScopeId)
deriving DecidableEq, Repr

def Region.scope? : Region → Option ScopeId
  | .span _ _ => none
  | .scope id => some id

/-- Whether a reborrow has to end before the loan it goes through, or may end together with it. -/
inductive Nesting where
  | strict
  | allowEqual
deriving DecidableEq, Repr, Inhabited

/-- Whether a loan that ends at `child` fits into one that ends at `parent`. -/
def Nesting.nests : Nesting → (child parent : Nat) → Bool
  | .strict, child, parent => child < parent
  | .allowEqual, child, parent => child ≤ parent

/-! ## Loans -/

structure LoanId where
  number : Nat
deriving DecidableEq, Repr, Inhabited

def LoanId.render (id : LoanId) : String := "L" ++ toString id.number

/-- What is asked of the ledger: the loan without its number. -/
structure LoanRequest where
  source : Place
  kind : BorrowKind
  holder : Place
  region : Region
  /-- The last operation that the loan covers. -/
  stop : Nat
  /-- The operation that asks. -/
  created : Nat
deriving DecidableEq, Repr

structure Loan extends LoanRequest where
  id : LoanId
deriving DecidableEq, Repr

/-- Why a loan is refused. -/
inductive LoanError where
  /-- A live loan on overlapping storage that cannot share it. -/
  | conflicting (existing : Loan)
  /-- The loan that the new one goes through ends too early. -/
  | outlives (parent : Loan)
deriving DecidableEq, Repr

namespace LoanError

/-- The live loan that stands in the way. -/
def loan : LoanError → Loan
  | .conflicting existing => existing
  | .outlives parent => parent

def message : LoanError → String
  | .conflicting existing => "conflicts with live loan " ++ existing.id.render
  | .outlives parent => "reborrow outlives loan " ++ parent.id.render

end LoanError

end BorrowChecker
