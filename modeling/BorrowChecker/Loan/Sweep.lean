import BorrowChecker.Loan.Basic

/-!
# Sweeps

A sweep takes loans out of the list that it goes through. It goes from the last index down to the first, so a loan that
leaves moves only loans that have had their turn, and the index stays inside the list. `sweep_length` says what comes
out of a whole sweep.
-/

namespace BorrowChecker

/-- Gives the loans before `index` their turns, the last one first. Those that `gone` picks are moved from `live` to the end
of `released`. There is no result if an index lies outside the list. -/
def sweep (gone : Loan → Bool) : (index : Nat) → (live released : List Loan) → Option (List Loan × List Loan)
  | 0, live, released => some (released, live)
  | i + 1, live, released =>
    match live[i]? with
    | none => none
    | some loan =>
      if gone loan then sweep gone i (live.eraseIdx i) (released ++ [loan]) else sweep gone i live released

variable (gone : Loan → Bool)

/-- One turn: the loans `ahead` have not had theirs, the loans `seen` have had it and stayed. -/
theorem sweep_turn (ahead : List Loan) (loan : Loan) (seen released : List Loan) :
    sweep gone (ahead.length + 1) (ahead ++ loan :: seen) released =
      if gone loan then sweep gone ahead.length (ahead ++ seen) (released ++ [loan])
      else sweep gone ahead.length (ahead ++ loan :: seen) released := by
  have hread : (ahead ++ loan :: seen)[ahead.length]? = some loan := by simp
  have herase : (ahead ++ loan :: seen).eraseIdx ahead.length = ahead ++ seen := by
    simp [List.eraseIdx_append_of_length_le]
  rw [sweep, hread, herase]

/-- The turns that are left, with the loans listed in the order of their turns. -/
theorem sweep_reverse (ahead seen released : List Loan) :
    sweep gone ahead.length (ahead.reverse ++ seen) released =
      some (released ++ ahead.filter gone, (ahead.filter (!gone ·)).reverse ++ seen) := by
  induction ahead generalizing seen released with
  | nil => simp [sweep]
  | cons loan ahead ih =>
    have hturn := sweep_turn gone ahead.reverse loan seen released
    rw [List.length_reverse] at hturn
    rw [List.reverse_cons, List.append_assoc, List.singleton_append, List.length_cons, hturn, ih, ih]
    cases hgone : gone loan <;> simp [hgone]

/-- A whole sweep comes to its end. The loans that are picked come out, the last one first, and the others stay in order. -/
theorem sweep_length (loans : List Loan) :
    sweep gone loans.length loans [] = some ((loans.filter gone).reverse, loans.filter (!gone ·)) := by
  have hturns := sweep_reverse gone loans.reverse [] []
  rw [List.length_reverse, List.reverse_reverse, List.append_nil, List.nil_append, List.append_nil] at hturns
  rw [hturns, List.filter_reverse, List.filter_reverse, List.reverse_reverse]

theorem isSome_sweep (loans : List Loan) : (sweep gone loans.length loans []).isSome = true := by
  rw [sweep_length]
  rfl

end BorrowChecker
