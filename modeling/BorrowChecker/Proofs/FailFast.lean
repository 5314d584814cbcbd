import BorrowChecker.Proofs.Settings

/-!
# Failing fast

The mode of a session says what follows a violation, and nothing else: no operation looks at it
(`overlooks_mode`). So two sessions that differ in their mode give every operation the same verdict and stay alike as
long as nothing is rejected. The first violation ends the check of the one that fails fast, and what comes after it is not
looked at (`stepAll_failFast`), whether the other goes on or is itself stopped by a fatal violation.
-/

namespace BorrowChecker

theorem Verdict.eq_violation_of_isOk_eq_false {verdict : Verdict} (h : verdict.isOk = false) :
    ∃ v, verdict = .violation v := by
  cases verdict with
  | violation v => exact ⟨v, rfl⟩
  | ok => exact Bool.noConfusion h
  | unchecked => exact Bool.noConfusion h

namespace Session

variable {s : Session}

/-- The session with another mode. -/
def withMode (s : Session) (mode : Mode) : Session := { s with config := { s.config with mode } }

/-! ## Steps in two modes -/

theorem overlooks_mode (s : Session) (mode : Mode) (op : Operation) :
    s.Overlooks { s.config with mode } s.pairs op := by
  cases op with
  | scopeBegin | borrow => rfl
  | _ => trivial

theorem verdict_withMode (mode : Mode) (op : Operation) : ((s.withMode mode).step op).1 = (s.step op).1 :=
  (s.overlooks_mode mode op).parallel.verdict_eq

/-- Two sessions that differ in their mode still do so, and in nothing else, after an operation that is not rejected. -/
theorem step_withMode_of_isOk (mode : Mode) {op : Operation} (hok : (s.step op).1.isOk = true) :
    ((s.withMode mode).step op).2 = (s.step op).2.withMode mode := by
  have hstep : ((s.withMode mode).step op).2 = (s.step op).2.withSettings { s.config with mode } s.pairs :=
    (s.overlooks_mode mode op).parallel.step_eq (Or.inr hok)
  obtain ⟨hconfig, hpairs⟩ := s.settings_step op
  rw [hstep, withSettings, withMode, hconfig, ← hpairs]

/-- A session that fails fast stops at a violation. -/
theorem stopped_of_failFast {op : Operation} {v : Violation} (hv : (s.step op).1 = .violation v) :
    ((s.withMode .failFast).step op).2.stopped = true := by
  obtain ⟨-, -, hstep⟩ := step_rejected ((verdict_withMode .failFast op).trans hv)
  rw [hstep]
  rfl

/-! ## Streams -/

theorem stepAll_of_stopped (hstop : s.stopped = true) (ops : List Operation) :
    (s.stepAll ops).1 = List.replicate ops.length .unchecked := by
  induction ops generalizing s with
  | nil => rfl
  | cons op ops ih =>
    simp only [stepAll, step_of_stopped hstop, List.length_cons, List.replicate_succ]
    exact congrArg _ (ih hstop)

/-- The verdicts up to and including the first violation; what comes after it is not looked at. -/
def cutShort (verdicts : List Verdict) : List Verdict :=
  let k := verdicts.findIdx (!·.isOk)
  verdicts.take (k + 1) ++ List.replicate (verdicts.length - (k + 1)) .unchecked

theorem cutShort_cons_of_isOk {verdict : Verdict} (hok : verdict.isOk = true) (verdicts : List Verdict) :
    cutShort (verdict :: verdicts) = verdict :: cutShort verdicts := by
  simp [cutShort, List.findIdx_cons, hok]

theorem cutShort_cons_violation (v : Violation) (verdicts : List Verdict) :
    cutShort (.violation v :: verdicts) = .violation v :: List.replicate verdicts.length .unchecked := by
  simp [cutShort, List.findIdx_cons, Verdict.isOk, Verdict.violation?]

theorem stepAll_failFast (s : Session) (ops : List Operation) :
    ((s.withMode .failFast).stepAll ops).1 = cutShort (s.stepAll ops).1 := by
  induction ops generalizing s with
  | nil => rfl
  | cons op ops ih =>
    have hcons : ∀ t : Session, (t.stepAll (op :: ops)).1 = (t.step op).1 :: ((t.step op).2.stepAll ops).1 := fun _ => rfl
    rw [hcons, hcons, verdict_withMode]
    cases hok : (s.step op).1.isOk with
    | true => rw [cutShort_cons_of_isOk hok, step_withMode_of_isOk .failFast hok, ih]
    | false =>
      obtain ⟨v, hv⟩ := Verdict.eq_violation_of_isOk_eq_false hok
      rw [stepAll_of_stopped (stopped_of_failFast hv), hv, cutShort_cons_violation, length_stepAll]

end Session

/-- **Failing fast gives a prefix.** On every stream and for every nesting, let `k` be the index of the first violation
that a session finds which goes on after violations, or the length of the stream if it finds none. A session that fails
fast gives the same verdicts up to and including `k`, and leaves every operation after `k` unchecked. -/
theorem failFast_prefix_of_collectAll (nesting : Nesting) (ops : List Operation) :
    let all := checkWith { mode := .collectAll, nesting } ops
    let k := all.findIdx (!·.isOk)
    checkWith { mode := .failFast, nesting } ops =
      all.take (k + 1) ++ List.replicate (ops.length - (k + 1)) .unchecked := by
  intro all k
  have hlength : all.length = ops.length := Session.length_stepAll _ _
  rw [← hlength]
  exact Session.stepAll_failFast { config := { mode := .collectAll, nesting }, pairs := Scope.pairs 0 ops ++ [] } ops

end BorrowChecker
