import BorrowChecker.Proofs.Change

/-!
# Histories of a session

A session is used through steps and runs, in any order. A run pairs the scopes of its stream and then takes one step per
operation, so every history is made of steps and pairings, and the states in the midst of a run belong to it. What every
small change of the registry keeps is kept throughout every history (`Later.invariant`), and so is what is kept by
applying an operation as a whole (`Reachable.preserved`).
-/

namespace BorrowChecker

namespace Session

/-- The session that knows how the scopes of a stream are paired. -/
def paired (s : Session) (ops : List Operation) : Session :=
  { s with pairs := Scope.pairs s.next ops ++ s.pairs }

theorem run_eq_stepAll_paired (s : Session) (ops : List Operation) : s.run ops = (s.paired ops).stepAll ops := rfl

/-- The second session is reached from the first by steps and runs. Every operation on the way is allowed in the session
that it meets. -/
inductive Later (allowed : Session → Operation → Prop) (s : Session) : Session → Prop where
  | refl : Later allowed s s
  | step {t : Session} {op : Operation} : Later allowed s t → allowed t op → Later allowed s (t.step op).2
  | paired {t : Session} (ops : List Operation) : Later allowed s t → Later allowed s (t.paired ops)

/-- The session is reached by some history from the start. -/
def Reachable (config : Config) (s : Session) : Prop := Later (fun _ _ => True) { config } s

variable {s t : Session}

/-- A list of operations that are allowed wherever they are met. -/
theorem Later.stepAll {allowed : Session → Operation → Prop} (h : Later allowed s t) {ops : List Operation}
    (hops : ∀ u, ∀ op ∈ ops, allowed u op) : Later allowed s (t.stepAll ops).2 := by
  induction ops generalizing t with
  | nil => exact h
  | cons op ops ih =>
    exact ih (h.step (hops t op List.mem_cons_self)) fun u other hother => hops u other (List.mem_cons_of_mem _ hother)

namespace Reachable

variable {config : Config}

theorem start (config : Config) : Reachable config { config } := Later.refl

theorem step (h : Reachable config s) (op : Operation) : Reachable config (s.step op).2 := Later.step h trivial

theorem stepAll (h : Reachable config s) (ops : List Operation) : Reachable config (s.stepAll ops).2 :=
  Later.stepAll h fun _ _ _ => trivial

/-- The states in the midst of a run are reached as well. -/
theorem amid (h : Reachable config s) (done rest : List Operation) :
    Reachable config ((s.paired (done ++ rest)).stepAll done).2 :=
  stepAll (Later.paired (done ++ rest) h) done

theorem run (h : Reachable config s) (ops : List Operation) : Reachable config (s.run ops).2 := by
  have hdone := h.amid ops []
  rw [List.append_nil] at hdone
  rw [run_eq_stepAll_paired]
  exact hdone

/-- What holds at the start, and is kept by pairing, by letting an index pass and by applying an operation, holds in every
session that is reached. -/
theorem preserved {P : Session → Prop} (hstart : P { config }) (hpaired : ∀ t ops, P t → P (t.paired ops))
    (hidle : ∀ t, P t → P { t with next := t.next + 1 })
    (happly : ∀ t op stopped, Reachable config t → P t →
      P { (t.refreshed.apply op).2 with next := t.next + 1, stopped })
    (h : Reachable config s) : P s := by
  rw [Reachable] at h
  induction h with
  | refl => exact hstart
  | @step t op hlater _ ih =>
    cases hstop : t.stopped with
    | true =>
      rw [step_of_stopped hstop]
      exact hidle t ih
    | false =>
      obtain ⟨stopped, hstep⟩ := t.step_running hstop op
      rw [hstep]
      exact happly t op stopped hlater ih
  | paired ops _ ih => exact hpaired _ ops ih

end Reachable

/-- What is reached in a restricted way is reached. -/
theorem Later.reachable {config : Config} {allowed : Session → Operation → Prop} (h : Later allowed { config } s) :
    Reachable config s := by
  induction h with
  | refl => exact Reachable.start config
  | step _ _ ih => exact ih.step _
  | paired ops _ ih => exact Later.paired ops ih

/-- What small changes keep is kept by every history in which only allowed places are declared. -/
theorem Later.invariant {allowed : Session → Operation → Prop} {P : Registry → Prop}
    (hchange : ∀ t op, allowed t op → ∀ r r', Registry.Change (t.Declares op) r r' → P r → P r')
    (hlater : Later allowed s t) (hs : P s.registry) : P t.registry := by
  induction hlater with
  | refl => exact hs
  | @step t op _ hallowed ih => exact Registry.changes_invariant (hchange t op hallowed) (t.step_changes op) ih
  | paired ops _ ih => exact ih

theorem Later.placed {allowed : Session → Operation → Prop} (hlater : Later allowed s t) (h : s.store.Placed) :
    t.store.Placed :=
  Later.invariant (P := fun r => r.store.Placed) (fun _ _ _ _ _ hchange => hchange.placed) hlater h

theorem Reachable.placed {config : Config} (h : Reachable config s) : s.store.Placed :=
  Later.placed h fun _ hdecl => absurd hdecl List.not_mem_nil

end Session

end BorrowChecker
