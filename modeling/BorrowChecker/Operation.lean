import BorrowChecker.Variable.Basic

/-!
# Operations

The stream to check is a list of operations on places, bracketed by scopes.
-/

namespace BorrowChecker

/-- Where the value of a new binding comes from. -/
inductive Init where
  | fresh
  | move (source : Place)
  | copy (source : Place)
deriving DecidableEq, Repr

/-- One operation of the program under check. -/
inductive Operation where
  | scopeBegin (id : ScopeId)
  | scopeEnd (id : ScopeId)
  /-- Gives a variable, or a part that was moved out, a value. -/
  | bind (place : Place) (init : Init) (mutable : Bool) (perms : PermSet) (facts : TypeFacts)
  /-- Says what is known of the value at a part. -/
  | project (place : Place) (facts : TypeFacts)
  | move (place : Place)
  /-- Duplicates a value if its type allows that, and moves it otherwise. -/
  | copy (place : Place)
  /-- Lends `source` to `holder`. -/
  | borrow (source : Place) (kind : BorrowKind) (holder : Place) (region : Region)
  | mutate (place : Place)
  /-- Any other use, by the permissions it needs. -/
  | access (place : Place) (needs : PermSet)
  | drop (place : Place)
  /-- Gives the loans held at a place back. -/
  | release (holder : Place)
  /-- Cuts an array in two, so that its halves can be named. -/
  | split (array : Place) (boundary : Nat)
  /-- An operation that is exempt from checking. -/
  | unchecked (place : Place)
deriving DecidableEq, Repr

namespace Operation

/-! ## Common operations -/

def bindFresh (p : Place) : Operation := .bind p .fresh false .all .owned

def bindFreshMut (p : Place) : Operation := .bind p .fresh true .all .owned

def bindFreshWith (p : Place) (mutable : Bool) (facts : TypeFacts) : Operation :=
  .bind p .fresh mutable .all facts

def bindMove (p source : Place) : Operation := .bind p (.move source) false .all .owned

def bindCopy (p source : Place) : Operation := .bind p (.copy source) false .all .plain

def borrowShared (source holder : Place) (region : Region) : Operation :=
  .borrow source .shared holder region

def borrowExclusive (source holder : Place) (region : Region) : Operation :=
  .borrow source .exclusive holder region

def read (p : Place) : Operation := .access p .read

/-- The place an operation is about; a borrow is about its source. -/
def place? : Operation → Option Place
  | .scopeBegin _ | .scopeEnd _ => none
  | .bind place _ _ _ _ => some place
  | .project place _ => some place
  | .move place | .copy place | .mutate place | .drop place | .unchecked place => some place
  | .borrow source _ _ _ => some source
  | .access place _ => some place
  | .release holder => some holder
  | .split array _ => some array

end Operation

end BorrowChecker
