import BorrowChecker.Proofs.Pairing
import BorrowChecker.Proofs.Reachable
import BorrowChecker.Proofs.Settings

/-!
# Streams in chunks

A stream may be handed over in one piece or in several. The only thing that depends on it is the pairing of scopes, which
sees one piece at a time. If no scope is opened in one piece and closed in the next, the pairs of the whole are those of
the pieces (`Scope.pairs_append`), though listed in another order. Each index is looked up when its operation is checked
and at no other time, so a run of the whole and the runs of the pieces go the same way (`stepAll_withPairs`).
-/

namespace BorrowChecker

namespace Scope

variable {i b : Nat} {ops : List Operation}

/-- No scope that is opened in the first stream is closed in the second, where the second follows the first and the first
operation of all has index `i`. -/
def Uncut (i : Nat) (xs ys : List Operation) : Prop :=
  ∀ pair ∈ pairs i (xs ++ ys), pair.1 < i + xs.length → pair.2 < i + xs.length

instance (i : Nat) (xs ys : List Operation) : Decidable (Uncut i xs ys) :=
  inferInstanceAs (Decidable (∀ pair ∈ pairs i (xs ++ ys), pair.1 < i + xs.length → pair.2 < i + xs.length))

theorem lookup_pairs_of_outside (h : b < i ∨ i + ops.length ≤ b) : (pairs i ops).lookup b = none := by
  refine List.lookup_eq_none_iff.mpr fun pair hpair => bne_iff_ne.mpr ?_
  rintro rfl
  rcases (bounds_of_mem_pairsFrom hpair).1 with hnone | hinside
  · exact absurd hnone List.not_mem_nil
  · omega

/-- The pairs of two streams in a row start with different operations, so it does not matter which are listed first. -/
theorem lookup_pairs_swap (i : Nat) (xs ys : List Operation) (known : List (Nat × Nat)) (b : Nat) :
    (pairs i xs ++ pairs (i + xs.length) ys ++ known).lookup b =
      (pairs (i + xs.length) ys ++ (pairs i xs ++ known)).lookup b := by
  by_cases hb : b < i + xs.length
  · have hnone : (pairs (i + xs.length) ys).lookup b = none := lookup_pairs_of_outside (Or.inl hb)
    simp [List.lookup_append, hnone]
  · have hnone : (pairs i xs).lookup b = none := lookup_pairs_of_outside (Or.inr (Nat.le_of_not_lt hb))
    simp [List.lookup_append, hnone]

end Scope

namespace Session

variable {s : Session} {config : Config} {pairs : List (Nat × Nat)}

theorem config_run (s : Session) (ops : List Operation) : (s.run ops).2.config = s.config :=
  ((s.paired ops).settings_stepAll ops).1

theorem pairs_run (s : Session) (ops : List Operation) : (s.run ops).2.pairs = Scope.pairs s.next ops ++ s.pairs :=
  ((s.paired ops).settings_stepAll ops).2

theorem next_run (s : Session) (ops : List Operation) : (s.run ops).2.next = s.next + ops.length :=
  (s.paired ops).next_stepAll ops

/-- What a session knows of an index matters only when the operation with that index is checked. -/
theorem stepAll_withPairs {ops : List Operation} (hconfig : config = s.config)
    (h : ∀ i, s.next ≤ i → i < s.next + ops.length → pairs.lookup i = s.pairs.lookup i) :
    (s.withSettings config pairs).stepAll ops = ((s.stepAll ops).1, (s.stepAll ops).2.withSettings config pairs) := by
  induction ops generalizing s with
  | nil => rfl
  | cons op ops ih =>
    rw [List.length_cons] at h
    have hoverlooks : s.Overlooks config pairs op := by
      cases op with
      | scopeBegin id => exact h s.next (Nat.le_refl _) (by omega)
      | borrow => exact congrArg Config.nesting hconfig
      | _ => trivial
    obtain ⟨hconfig', hpairs'⟩ := s.settings_step op
    have hrest : ∀ i, (s.step op).2.next ≤ i → i < (s.step op).2.next + ops.length →
        pairs.lookup i = (s.step op).2.pairs.lookup i := by
      intro i hlower hupper
      rw [next_step] at hlower hupper
      rw [hpairs', h i (by omega) (by omega)]
    have hverdict := hoverlooks.parallel.verdict_eq
    have hstep := hoverlooks.parallel.step_eq (Or.inl (congrArg Config.mode hconfig))
    simp only [stepAll, hverdict, hstep, ih (hconfig.trans hconfig'.symm) hrest]

/-- One run and two runs in a row, as far as their states can differ: the one has listed the pairs of the two streams
side by side from the start. -/
theorem run_append {xs ys : List Operation} (huncut : Scope.Uncut s.next xs ys) :
    s.run (xs ++ ys) = ((s.run xs).1 ++ ((s.run xs).2.run ys).1,
      ((s.run xs).2.run ys).2.withSettings s.config
        (Scope.pairs s.next xs ++ Scope.pairs (s.next + xs.length) ys ++ s.pairs)) := by
  let known := Scope.pairs s.next xs ++ Scope.pairs (s.next + xs.length) ys ++ s.pairs
  have hwhole : s.run (xs ++ ys) = ((s.paired xs).withSettings s.config known).stepAll (xs ++ ys) := by
    rw [run, Scope.pairs_append huncut]
    rfl
  have hfirst : ((s.paired xs).withSettings s.config known).stepAll xs =
      ((s.run xs).1, (s.run xs).2.withSettings s.config known) := by
    -- the pairs of the second stream come too late to be looked up
    refine stepAll_withPairs rfl fun i _ hi => ?_
    have hi : i < s.next + xs.length := hi
    rw [Scope.lookup_pairs_swap, List.lookup_append, Scope.lookup_pairs_of_outside (Or.inl hi)]
    rfl
  have hsecond : ((s.run xs).2.withSettings s.config known).stepAll ys =
      (((s.run xs).2.run ys).1, ((s.run xs).2.run ys).2.withSettings s.config known) := by
    have hpaired : (((s.run xs).2.paired ys).withSettings s.config known).stepAll ys =
        (((s.run xs).2.run ys).1, ((s.run xs).2.run ys).2.withSettings s.config known) := by
      refine stepAll_withPairs (s.config_run xs).symm fun i _ _ => ?_
      rw [Scope.lookup_pairs_swap, paired, pairs_run, next_run]
    exact hpaired
  rw [hwhole, stepAll_append, hfirst, hsecond]

/-- The sessions are in the same state. They may list differently what they know of the ends of scopes, but they find the
same end for every scope. -/
structure SameState (s t : Session) : Prop where
  config : s.config = t.config
  registry : s.registry = t.registry
  scopes : s.scopes = t.scopes
  ends : ∀ i, s.pairs.lookup i = t.pairs.lookup i
  next : s.next = t.next
  stopped : s.stopped = t.stopped

/-- **Chunking does not matter.** In every session, running two streams in a row gives the verdicts and the state of
running them as one, if no scope is opened in the first and closed in the second. In particular, a stream without pairs of
scopes can just as well be checked one operation at a time. -/
theorem run_append_of_uncut (s : Session) :
    (∀ xs ys, Scope.Uncut s.next xs ys →
      (s.run (xs ++ ys)).1 = (s.run xs).1 ++ ((s.run xs).2.run ys).1 ∧
      SameState (s.run (xs ++ ys)).2 ((s.run xs).2.run ys).2) ∧
    ∀ ops, Scope.pairs s.next ops = [] → s.run ops = s.stepAll ops := by
  refine ⟨fun xs ys huncut => ?_, fun ops hnone => ?_⟩
  · rw [run_append huncut]
    refine ⟨rfl, by rw [config_run, config_run]; rfl, rfl, rfl, fun i => ?_, rfl, rfl⟩
    rw [pairs_run, pairs_run, next_run]
    exact Scope.lookup_pairs_swap s.next xs ys s.pairs i
  · rw [run, hnone]
    rfl

/-- The first stream leaves a scope open that the second does not close, and the second has a scope of its own. -/
theorem scope_left_open_at_cut :
    let xs : List Operation := [.bindFreshMut (.var ⟨0⟩), .scopeBegin ⟨1⟩,
      .borrowShared (.var ⟨0⟩) (.var ⟨1⟩) (.scope ⟨1⟩)]
    let ys : List Operation := [.scopeBegin ⟨2⟩, .borrowShared (.var ⟨0⟩) (.var ⟨2⟩) (.scope ⟨2⟩), .scopeEnd ⟨2⟩,
      .mutate (.var ⟨0⟩)]
    let s : Session := {}
    Scope.Uncut 0 xs ys ∧ Scope.pairs 0 (xs ++ ys) = [(3, 5)] ∧
    (s.run (xs ++ ys)).1 = (s.run xs).1 ++ ((s.run xs).2.run ys).1 ∧
    SameState (s.run (xs ++ ys)).2 ((s.run xs).2.run ys).2 ∧
    (s.run (xs ++ ys)).2.ledger.loans.map (fun loan => (loan.region, loan.stop)) = [(.scope ⟨1⟩, lastIndex)] ∧
    s.run xs = s.stepAll xs := by
  intro xs ys s
  have huncut : Scope.Uncut 0 xs ys := by decide
  have hwhole := (run_append_of_uncut s).1 xs ys huncut
  exact ⟨huncut, by decide, hwhole.1, hwhole.2, by decide, (run_append_of_uncut s).2 xs (by decide)⟩

end Session

end BorrowChecker
