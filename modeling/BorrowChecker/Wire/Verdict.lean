import BorrowChecker.Verdict
import BorrowChecker.Wire.Operation

/-!
# The wire form of verdicts
-/

namespace BorrowChecker

namespace LoanInfo

def components : Json.Components (Nat × Place × BorrowKind × Place × Nat) :=
  .cons (.required "id" Json.nat (Json.natBelow? Json.limit32)) <|
  .cons (.required "source" Place.toJson Place.ofJson?) <|
  .cons (.required "kind" BorrowKind.toJson BorrowKind.ofJson?) <|
  .cons (.required "holder" Place.toJson Place.ofJson?) <|
  .last (.required "created_at" Json.nat (Json.natBelow? Json.limit64))

def toJson (loan : LoanInfo) : Json :=
  components.toJson (loan.id.number, loan.source, loan.kind, loan.holder, loan.created)

def ofJson? (j : Json) : Option LoanInfo :=
  (components.ofRecord? j).map fun (id, source, kind, holder, created) => ⟨⟨id⟩, source, kind, holder, created⟩

end LoanInfo

namespace ViolationKind

def toJson (kind : ViolationKind) : Json := .str kind.identifier

def ofJson? (j : Json) : Option ViolationKind := j.name?.bind ofIdentifier?

end ViolationKind

namespace Violation

def components : Json.Components (ViolationKind × Option Place × Option LoanInfo × Nat) :=
  .cons (.required "kind" ViolationKind.toJson ViolationKind.ofJson?) <|
  .cons (.optional "place" Place.toJson Place.ofJson?) <|
  .cons (.optional "conflicting_loan" LoanInfo.toJson LoanInfo.ofJson?) <|
  .last (.required "operation_index" Json.nat (Json.natBelow? Json.limit64))

def toJson (v : Violation) : Json := components.toJson (v.kind, v.place, v.loan, v.index)

def ofJson? (j : Json) : Option Violation :=
  (components.ofRecord? j).map fun (kind, place, loan, index) => { kind, place, loan, index }

end Violation

namespace Verdict

def toJson : Verdict → Json
  | .ok => .str "Ok"
  | .unchecked => .str "Unchecked"
  | .violation v => .tagged "Violation" v.toJson

def ofJson? (j : Json) : Option Verdict :=
  match j.name?, j.variant? with
  | some "Ok", _ => some .ok
  | some "Unchecked", _ => some .unchecked
  | _, some ("Violation", some v) => (Violation.ofJson? v).map .violation
  | _, _ => none

/-- The wire form of a list of verdicts. -/
def listToJson (verdicts : List Verdict) : Json := .arr (verdicts.map toJson)

/-- The verdicts with a given wire form. -/
def listOfJson? (j : Json) : Option (List Verdict) := j.list? ofJson?

end Verdict

end BorrowChecker
