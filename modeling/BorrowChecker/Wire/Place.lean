import BorrowChecker.Place.Basic
import BorrowChecker.Wire.Json

/-!
# The wire form of places

Symbols travel as their numbers, and bounds have 64 bits.
-/

namespace BorrowChecker

namespace Symbol

def toJson (x : Symbol) : Json := .nat x.number

def ofJson? (j : Json) : Option Symbol := (j.natBelow? numberLimit).bind ofNumber?

end Symbol

namespace Projection

/-- The bounds of a window. -/
def window : Json.Components (Nat × Option Nat) :=
  .cons (.required "from" Json.nat (Json.natBelow? Json.limit64))
    (.last (.optional "to" Json.nat (Json.natBelow? Json.limit64)))

def toJson : Projection → Json
  | .field f => .tagged "Field" f.toJson
  | .index => .str "Index"
  | .deref => .str "Deref"
  | .subslice lo hi => .tagged "Subslice" (window.toJson (lo, hi))

def ofJson? (j : Json) : Option Projection :=
  match j.name?, j.variant? with
  | some "Index", _ => some .index
  | some "Deref", _ => some .deref
  | _, some ("Field", some f) => (Symbol.ofJson? f).map .field
  | _, some ("Subslice", some bounds) => (window.ofFields? bounds).map fun (lo, hi) => .subslice lo hi
  | _, _ => none

end Projection

namespace Place

def components : Json.Components (Symbol × List Projection) :=
  .cons (.required "root" Symbol.toJson Symbol.ofJson?)
    (.last (.required "projection" (fun path => .arr (path.map Projection.toJson)) (Json.list? Projection.ofJson?)))

def toJson (p : Place) : Json := components.toJson (p.root, p.path)

def ofJson? (j : Json) : Option Place := (components.ofRecord? j).map fun (root, path) => ⟨root, path⟩

end Place

end BorrowChecker
