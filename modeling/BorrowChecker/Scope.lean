import BorrowChecker.Operation

/-!
# Scopes

A loan tied to a scope ends with the operation that closes the scope, which comes later in the stream. So before a
stream is checked, its opening and closing operations are paired.
-/

namespace BorrowChecker

/-- A scope that is open, and the operation that closes it. -/
structure OpenScope where
  id : ScopeId
  stop : Nat
deriving DecidableEq, Repr

namespace Scope

/-- The operations that open a scope, by index, each with the operation that closes it. The first operation has
index `i`, and `opened` holds the scopes opened before it, innermost first, with the operations that opened them. An
operation that does not close the innermost scope closes none. -/
def pairsFrom (opened : List (ScopeId × Nat)) (i : Nat) : List Operation → List (Nat × Nat)
  | [] => []
  | .scopeBegin id :: ops => pairsFrom ((id, i) :: opened) (i + 1) ops
  | .scopeEnd id :: ops =>
    match opened with
    | [] => pairsFrom [] (i + 1) ops
    | (top, start) :: outer =>
      if top = id then (start, i) :: pairsFrom outer (i + 1) ops
      else pairsFrom opened (i + 1) ops
  | _ :: ops => pairsFrom opened (i + 1) ops

/-- The scopes of a stream whose first operation has index `i`, by the operations that open and close them. -/
def pairs (i : Nat) (ops : List Operation) : List (Nat × Nat) := pairsFrom [] i ops

end Scope

end BorrowChecker
