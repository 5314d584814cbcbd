import BorrowChecker.Place.Basic

/-!
# Printed places

Fields are written `a.f`, elements `a[_]`, windows `a[2..5]`, and what a pointer points to `*a`. The star binds
loosest, so a step out of `*a` is written `(*a).f`.
-/

namespace BorrowChecker

namespace Projection

/-- A window's bounds; a bound at the array's own end is left out. -/
def bounds (lo : Nat) (hi : Option Nat) : String :=
  (if lo = 0 then "" else toString lo) ++ ".." ++ hi.elim "" toString

end Projection

namespace Place

/-- Writes the projections after `text`, which ends in a bare star expression when `starred` is set. -/
def renderFrom (names : Interner) : (text : String) → (starred : Bool) → List Projection → String
  | text, _, [] => text
  | text, starred, e :: path =>
    let base := if starred then "(" ++ text ++ ")" else text
    match e with
    | .field f => renderFrom names (base ++ "." ++ names.name f) false path
    | .index => renderFrom names (base ++ "[_]") false path
    | .deref => renderFrom names ("*" ++ base) true path
    | .subslice lo hi => renderFrom names (base ++ "[" ++ Projection.bounds lo hi ++ "]") false path

/-- The place as a diagnostic shows it. -/
def render (names : Interner) (p : Place) : String :=
  renderFrom names (names.name p.root) false p.path

end Place

end BorrowChecker
