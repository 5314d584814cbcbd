import BorrowChecker.Verdict

/-!
# Reports

A report has one line per operation.
-/

namespace BorrowChecker

/-- The verdict as a report shows it. -/
def Verdict.render (names : Interner) : Verdict → String
  | .ok => "ok"
  | .unchecked => "unchecked"
  | .violation v => v.kind.identifier ++ ": " ++ v.message names

namespace Report

/-- Every operation's index and verdict, on a line each. -/
def render (names : Interner) (verdicts : List Verdict) : String :=
  String.join (verdicts.zipIdx.map fun (verdict, i) =>
    toString i ++ ": " ++ verdict.render names ++ "\n")

/-- The violations in the order of their operations. -/
def violations (verdicts : List Verdict) : List Violation := verdicts.filterMap Verdict.violation?

/-- The kind of violation of each operation. -/
def kinds (verdicts : List Verdict) : List (Option ViolationKind) :=
  verdicts.map fun verdict => verdict.violation?.map (·.kind)

end Report

end BorrowChecker
