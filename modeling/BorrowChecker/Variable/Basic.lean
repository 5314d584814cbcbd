import BorrowChecker.Loan.Basic

/-!
# Variables

What is known of a variable from its declaration: what its type says, what may be done with it, the scope it dies
with, and, if it holds a reference, of which kind.
-/

namespace BorrowChecker

/-- What the type of a value says about it. -/
structure TypeFacts where
  /-- The value owns what it stands for, so it can be dropped and moving it needs ownership. -/
  owning : Bool
  /-- A copy of the value leaves it in place. -/
  duplicable : Bool
deriving DecidableEq, Repr

namespace TypeFacts

def owned : TypeFacts := ⟨true, false⟩

def plain : TypeFacts := ⟨false, true⟩

instance : Inhabited TypeFacts := ⟨owned⟩

/-- A reference owns nothing, and only a shared one can be duplicated. -/
def reference (kind : BorrowKind) : TypeFacts := ⟨false, kind.isShared⟩

end TypeFacts

/-- What a declaration asks for. -/
structure DeclareRequest where
  perms : PermSet
  mutable : Bool
  facts : TypeFacts
  scope : ScopeId
  /-- The kind of the reference that the variable will hold, if it holds one. -/
  holder : Option BorrowKind := none
deriving DecidableEq, Repr

/-- What a declaration gets: a holder can be read and written, a variable that is not mutable is not written, and
only an owning value is owned. -/
def DeclareRequest.granted (request : DeclareRequest) : PermSet :=
  let perms := if request.holder.isSome then .readWrite else request.perms
  let perms := if request.mutable then perms else perms \ .write
  if request.facts.owning then perms else perms \ .own

structure Declaration where
  name : Symbol
  /-- The place that was declared. -/
  place : Place
  perms : PermSet
  facts : TypeFacts
  scope : ScopeId
  /-- The position of the declaration among all that the store has seen. -/
  order : Nat
  mutable : Bool
  holder : Option BorrowKind
  /-- Set until the whole variable is moved out or dropped. -/
  live : Bool
deriving DecidableEq, Repr

/-- Why the store refuses a request. -/
inductive StoreError where
  | unknown
  | duplicate
  | moved
  | notMutable
deriving DecidableEq, Repr

def StoreError.message : StoreError → String
  | .unknown => "path is not declared"
  | .duplicate => "path is already declared"
  | .moved => "path has been moved out or dropped"
  | .notMutable => "path is not declared mutable"

end BorrowChecker
