import BorrowChecker.Loan.Basic

/-!
# Splits of arrays

A window of an array can be named only after the array has been split at its boundary, and only until the scope
that split it closes.
-/

namespace BorrowChecker

structure Split where
  array : Place
  boundary : Nat
  /-- The scope that made the cut. -/
  scope : ScopeId
deriving DecidableEq, Repr

structure Splits where
  records : List Split := []
deriving DecidableEq, Repr, Inhabited

namespace Splits

/-- Records a split. One that is already in force, from whichever scope, is left as it is. -/
def insert (splits : Splits) (split : Split) : Splits :=
  if splits.records.any fun s => s.array == split.array && s.boundary == split.boundary then splits
  else ⟨splits.records ++ [split]⟩

/-- Whether a window is a half of its array under some split. -/
def has (splits : Splits) (w : Place.Window) : Bool :=
  splits.records.any fun s =>
    s.array == w.array && ((w.lo == 0 && w.hi == some s.boundary) || (w.lo == s.boundary && w.hi == none))

/-- Forgets the splits that a scope made. -/
def discard (splits : Splits) (scope : ScopeId) : Splits :=
  ⟨splits.records.filter (·.scope != scope)⟩

end Splits

end BorrowChecker
