import BorrowChecker.Symbol

/-!
# Places

A place is a storage path: a variable followed by projections, each stepping into a part of what the path before
it names. A window (`subslice`) stays at the array and restricts which of its elements the next step can reach.
-/

namespace BorrowChecker

/-- One step from a place into a part of it. -/
inductive Projection where
  /-- The field of a record with a given name. -/
  | field (name : Symbol)
  /-- Some element of an array; which one is not tracked. -/
  | index
  /-- What a pointer points to. -/
  | deref
  /-- The elements from `lo` up to `hi`, or to the end of the array. -/
  | subslice (lo : Nat) (hi : Option Nat)
deriving DecidableEq, Repr

/-- A variable and a path of projections out of it. -/
structure Place where
  root : Symbol
  path : List Projection := []
deriving DecidableEq, Repr

namespace Place

def var (x : Symbol) : Place := ⟨x, []⟩

def project (p : Place) (e : Projection) : Place := { p with path := p.path ++ [e] }

/-- The two halves of an array cut at a boundary. -/
def halves (array : Place) (boundary : Nat) : Place × Place :=
  (array.project (.subslice 0 (some boundary)), array.project (.subslice boundary none))

def isVar (p : Place) : Bool := p.path.isEmpty

/-- The place reached after the first `n` projections. -/
def truncate (p : Place) (n : Nat) : Place := { p with path := p.path.take n }

/-- The places on the way from the variable to `p`, without `p` itself, the longest first. -/
def ancestors (p : Place) : List Place :=
  (List.range p.path.length).reverse.map p.truncate

/-- A window that a place goes through: an array and a range of its elements. -/
structure Window where
  array : Place
  lo : Nat
  hi : Option Nat
deriving DecidableEq, Repr

/-- The windows that a place goes through, the outermost first. -/
def windows (p : Place) : List Window :=
  p.path.zipIdx.filterMap fun (e, n) =>
    match e with
    | .subslice lo hi => some ⟨p.truncate n, lo, hi⟩
    | _ => none

end Place

end BorrowChecker
