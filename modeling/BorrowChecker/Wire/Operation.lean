import BorrowChecker.Operation
import BorrowChecker.Wire.Place

/-!
# The wire form of operations
-/

namespace BorrowChecker

/-! ## Components -/

namespace ScopeId

def toJson (id : ScopeId) : Json := .nat id.number

def ofJson? (j : Json) : Option ScopeId := (j.natBelow? Json.limit32).map fun n => ⟨n⟩

end ScopeId

namespace PermSet

def toJson (s : PermSet) : Json := .nat s.bits.toNat

def ofJson? (j : Json) : Option PermSet := (j.natBelow? Json.limit8).map fun n => ⟨BitVec.ofNat 8 n⟩

end PermSet

namespace TypeFacts

def components : Json.Components (Bool × Bool) :=
  .cons (.required "is_owning" Json.bool Json.bool?) (.last (.required "is_trivially_duplicable" Json.bool Json.bool?))

def toJson (facts : TypeFacts) : Json := components.toJson (facts.owning, facts.duplicable)

def ofJson? (j : Json) : Option TypeFacts :=
  (components.ofRecord? j).map fun (owning, duplicable) => ⟨owning, duplicable⟩

end TypeFacts

namespace BorrowKind

def toJson : BorrowKind → Json
  | .shared => .str "Shared"
  | .exclusive => .str "Exclusive"

def ofJson? (j : Json) : Option BorrowKind :=
  match j.name? with
  | some "Shared" => some .shared
  | some "Exclusive" => some .exclusive
  | _ => none

end BorrowKind

namespace Region

/-- The bounds of a span. -/
def bounds : Json.Components (Nat × Nat) :=
  .cons (.required "start" Json.nat (Json.natBelow? Json.limit64))
    (.last (.required "end" Json.nat (Json.natBelow? Json.limit64)))

def toJson : Region → Json
  | .span start stop => .tagged "Span" (bounds.toJson (start, stop))
  | .scope id => .tagged "Scope" id.toJson

def ofJson? (j : Json) : Option Region :=
  match j.variant? with
  | some ("Span", some payload) => (bounds.ofFields? payload).map fun (start, stop) => .span start stop
  | some ("Scope", some payload) => (ScopeId.ofJson? payload).map .scope
  | _ => none

end Region

namespace Init

def toJson : Init → Json
  | .fresh => .str "Fresh"
  | .move source => .tagged "Move" source.toJson
  | .copy source => .tagged "Copy" source.toJson

def ofJson? (j : Json) : Option Init :=
  match j.name?, j.variant? with
  | some "Fresh", _ => some .fresh
  | _, some ("Move", some source) => (Place.ofJson? source).map .move
  | _, some ("Copy", some source) => (Place.ofJson? source).map .copy
  | _, _ => none

end Init

/-! ## Operations -/

namespace Operation

/-! What the operations with more than one component carry. -/

def bindComponents : Json.Components (Place × Init × Bool × PermSet × TypeFacts) :=
  .cons (.required "place" Place.toJson Place.ofJson?) <|
  .cons (.required "init" Init.toJson Init.ofJson?) <|
  .cons (.required "mutable" Json.bool Json.bool?) <|
  .cons (.required "perms" PermSet.toJson PermSet.ofJson?) <|
  .last (.required "facts" TypeFacts.toJson TypeFacts.ofJson?)

def projectComponents : Json.Components (Place × TypeFacts) :=
  .cons (.required "place" Place.toJson Place.ofJson?) <|
  .last (.required "facts" TypeFacts.toJson TypeFacts.ofJson?)

def borrowComponents : Json.Components (Place × BorrowKind × Place × Region) :=
  .cons (.required "source" Place.toJson Place.ofJson?) <|
  .cons (.required "kind" BorrowKind.toJson BorrowKind.ofJson?) <|
  .cons (.required "holder" Place.toJson Place.ofJson?) <|
  .last (.required "region" Region.toJson Region.ofJson?)

def accessComponents : Json.Components (Place × PermSet) :=
  .cons (.required "place" Place.toJson Place.ofJson?) <|
  .last (.required "needs" PermSet.toJson PermSet.ofJson?)

def splitComponents : Json.Components (Place × Nat) :=
  .cons (.required "array" Place.toJson Place.ofJson?) <|
  .last (.required "boundary" Json.nat (Json.natBelow? Json.limit64))

def toJson : Operation → Json
  | .scopeBegin id => .tagged "ScopeBegin" id.toJson
  | .scopeEnd id => .tagged "ScopeEnd" id.toJson
  | .bind place init mutable perms facts =>
    .tagged "Bind" (bindComponents.toJson (place, init, mutable, perms, facts))
  | .project place facts => .tagged "Project" (projectComponents.toJson (place, facts))
  | .move place => .tagged "Move" place.toJson
  | .copy place => .tagged "Copy" place.toJson
  | .borrow source kind holder region =>
    .tagged "Borrow" (borrowComponents.toJson (source, kind, holder, region))
  | .mutate place => .tagged "Mutate" place.toJson
  | .access place needs => .tagged "Use" (accessComponents.toJson (place, needs))
  | .drop place => .tagged "Drop" place.toJson
  | .release holder => .tagged "Release" holder.toJson
  | .split array boundary => .tagged "Split" (splitComponents.toJson (array, boundary))
  | .unchecked place => .tagged "Unchecked" place.toJson

def ofJson? (j : Json) : Option Operation :=
  match j.variant? with
  | some (name, some payload) =>
    match name with
    | "ScopeBegin" => (ScopeId.ofJson? payload).map .scopeBegin
    | "ScopeEnd" => (ScopeId.ofJson? payload).map .scopeEnd
    | "Bind" => (bindComponents.ofFields? payload).map fun (place, init, mutable, perms, facts) =>
      .bind place init mutable perms facts
    | "Project" => (projectComponents.ofFields? payload).map fun (place, facts) => .project place facts
    | "Move" => (Place.ofJson? payload).map .move
    | "Copy" => (Place.ofJson? payload).map .copy
    | "Borrow" => (borrowComponents.ofFields? payload).map fun (source, kind, holder, region) =>
      .borrow source kind holder region
    | "Mutate" => (Place.ofJson? payload).map .mutate
    | "Use" => (accessComponents.ofFields? payload).map fun (place, needs) => .access place needs
    | "Drop" => (Place.ofJson? payload).map .drop
    | "Release" => (Place.ofJson? payload).map .release
    | "Split" => (splitComponents.ofFields? payload).map fun (array, boundary) => .split array boundary
    | "Unchecked" => (Place.ofJson? payload).map .unchecked
    | _ => none
  | _ => none

/-- The wire form of a stream. -/
def listToJson (ops : List Operation) : Json := .arr (ops.map toJson)

/-- The stream with a given wire form. -/
def listOfJson? (j : Json) : Option (List Operation) := j.list? ofJson?

end Operation

end BorrowChecker
