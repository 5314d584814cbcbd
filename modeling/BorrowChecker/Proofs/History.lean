import BorrowChecker.Proofs.Windows

/-!
# What has happened so far

The history of a session is the list of the operations that it has checked, each with the session that the operation met,
the latest first. The verdict on an operation is read off that (`Event.verdict`), and is the one that the stream gets
(`verdicts_eventsAfter`). Every session that is reached has a history (`Reachable.history`).

Scopes are told apart by their numbers only while they are open, and a number that has become free can be given again. In
a history a scope is known by the operation that opened it (`Opening`), and no other scope is ever opened by the same
operation. So a scope that is still open has been open all the time, and everything around it as well
(`openings_suffix`).
-/

namespace BorrowChecker

/-- An operation that a session has met. -/
structure Event where
  session : Session
  op : Operation

namespace Event

def verdict (e : Event) : Verdict := (e.session.step e.op).1

/-- Whether the operation closes the innermost scope. It does unless it is not checked or found unbalanced. A loan that
outlives what dies with the scope is a violation, and the scope closes all the same. -/
def closes (e : Event) : Bool :=
  match e.op, e.verdict with
  | .scopeEnd _, .ok => true
  | .scopeEnd _, .violation v => v.kind != .unbalancedScope
  | _, _ => false

end Event

/-- A scope, by its number and the index of the operation that opened it. No operation opens the outermost one. -/
structure Opening where
  id : ScopeId
  index : Option Nat
deriving DecidableEq, Repr

/-- The scopes that are open after a history, innermost first. -/
def openings : List Event → List Opening
  | [] => [⟨.root, none⟩]
  | e :: past =>
    match e.op with
    | .scopeBegin id => if e.verdict = .ok then ⟨id, some past.length⟩ :: openings past else openings past
    | _ => if e.closes then (openings past).tail else openings past

/-! ## Scopes that are still open -/

theorem openings_cons_cases (e : Event) (past : List Event) :
    (∃ id, openings (e :: past) = ⟨id, some past.length⟩ :: openings past) ∨
    openings (e :: past) = (openings past).tail ∨ openings (e :: past) = openings past := by
  rw [openings]
  split
  next id _ =>
    split
    · exact Or.inl ⟨id, rfl⟩
    · exact Or.inr (Or.inr rfl)
  next =>
    split
    · exact Or.inr (Or.inl rfl)
    · exact Or.inr (Or.inr rfl)

/-- A scope that is open was opened by one of the operations so far. -/
theorem index_lt_of_mem_openings {past : List Event} {scope : Opening} (h : scope ∈ openings past) {i : Nat}
    (hi : scope.index = some i) : i < past.length := by
  induction past with
  | nil =>
    rw [List.mem_singleton.mp h] at hi
    exact absurd hi (by simp)
  | cons e past ih =>
    have hold : scope ∈ openings past → i < (e :: past).length := fun h => Nat.lt_succ_of_lt (ih h)
    rcases openings_cons_cases e past with ⟨id, hcons⟩ | hcons | hcons
    · rw [hcons] at h
      rcases List.mem_cons.mp h with rfl | h
      · cases hi
        exact Nat.lt_succ_self _
      · exact hold h
    · rw [hcons] at h
      exact hold (List.mem_of_mem_tail h)
    · rw [hcons] at h
      exact hold h

theorem nodup_openings (past : List Event) : (openings past).Nodup := by
  induction past with
  | nil => exact List.nodup_singleton _
  | cons e past ih =>
    rcases openings_cons_cases e past with ⟨id, hcons⟩ | hcons | hcons
    · rw [hcons]
      refine List.nodup_cons.mpr ⟨fun hmem => ?_, ih⟩
      exact Nat.lt_irrefl _ (index_lt_of_mem_openings hmem rfl)
    · rw [hcons]
      exact ih.tail
    · rw [hcons]
      exact ih

/-- What is open and was open at some time before the last operation was open right before it, too. -/
theorem mem_openings_of_cons {e : Event} {past earlier : List Event} {scope : Opening}
    (h : scope ∈ openings (e :: past)) (hwas : scope ∈ openings earlier) (hpast : earlier <:+ past) :
    scope ∈ openings past := by
  have hold : scope.index ≠ some past.length := fun hi =>
    Nat.not_lt.mpr hpast.length_le (index_lt_of_mem_openings hwas hi)
  rcases openings_cons_cases e past with ⟨id, hcons⟩ | hcons | hcons
  · rw [hcons] at h
    rcases List.mem_cons.mp h with rfl | h
    · exact absurd rfl hold
    · exact h
  · rw [hcons] at h
    exact List.mem_of_mem_tail h
  · rwa [hcons] at h

/-- While a scope stays open, so do the scopes around it, and new ones are opened inside. -/
theorem openings_suffix {later earlier : List Event} {scope : Opening} {outer : List Opening}
    (hinner : openings earlier = scope :: outer) (hopen : scope ∈ openings (later ++ earlier)) :
    scope :: outer <:+ openings (later ++ earlier) := by
  have hmem : scope ∈ openings earlier := hinner ▸ List.mem_cons_self
  induction later with
  | nil => exact hinner ▸ List.suffix_refl _
  | cons e later ih =>
    obtain ⟨inner, hsuffix⟩ := ih (mem_openings_of_cons hopen hmem (List.suffix_append _ _))
    rw [List.cons_append] at hopen ⊢
    rcases openings_cons_cases e (later ++ earlier) with ⟨id, hcons⟩ | hcons | hcons
    · rw [hcons, ← hsuffix]
      exact ⟨_ :: inner, rfl⟩
    · -- the scope itself is not the one that closes, since it would not be open any more
      rw [hcons, ← hsuffix] at hopen ⊢
      cases inner with
      | nil =>
        have hnodup := nodup_openings (later ++ earlier)
        rw [← hsuffix] at hnodup
        exact absurd hopen (List.nodup_cons.mp hnodup).1
      | cons _ inner => exact ⟨inner, rfl⟩
    · rw [hcons, ← hsuffix]
      exact ⟨inner, rfl⟩

namespace Session

/-! ## Histories -/

/-- The session is reached from the start through these operations, the latest first. Runs pair the scopes of their
streams on the way. -/
inductive History (config : Config) : List Event → Session → Prop where
  | start : History config [] { config }
  | step {past : List Event} {s : Session} (op : Operation) :
      History config past s → History config (⟨s, op⟩ :: past) (s.step op).2
  | paired {past : List Event} {s : Session} (ops : List Operation) :
      History config past s → History config past (s.paired ops)

/-- The history of a session that goes on with these operations. -/
def eventsAfter (past : List Event) (s : Session) : List Operation → List Event
  | [] => past
  | op :: ops => eventsAfter (⟨s, op⟩ :: past) (s.step op).2 ops

/-- The history holds the operations of the stream, each with the verdict that the stream gets for it. -/
theorem verdicts_eventsAfter (past : List Event) (s : Session) (ops : List Operation) :
    (s.eventsAfter past ops).map (fun e => (e.op, e.verdict)) =
      (ops.zip (s.stepAll ops).1).reverse ++ past.map (fun e => (e.op, e.verdict)) := by
  induction ops generalizing past s with
  | nil => rfl
  | cons op ops ih =>
    rw [eventsAfter, ih, stepAll, List.zip_cons_cons, List.reverse_cons, List.append_assoc]
    rfl

variable {config : Config} {past : List Event} {s : Session} {op : Operation}

namespace History

theorem stepAll (h : History config past s) (ops : List Operation) :
    History config (s.eventsAfter past ops) (s.stepAll ops).2 := by
  induction ops generalizing past s with
  | nil => exact h
  | cons op ops ih => exact ih (h.step op)

theorem run (h : History config past s) (ops : List Operation) :
    History config ((s.paired ops).eventsAfter past ops) (s.run ops).2 := by
  rw [run_eq_stepAll_paired]
  exact (h.paired ops).stepAll ops

theorem reachable (h : History config past s) : Reachable config s := by
  induction h with
  | start => exact .start config
  | step op _ ih => exact ih.step op
  | paired ops _ ih => exact Later.paired ops ih

end History

/-- Every session that is reached has a history. -/
theorem Reachable.history (h : Reachable config s) : ∃ past, History config past s := by
  rw [Reachable] at h
  induction h with
  | refl => exact ⟨_, .start⟩
  | @step t op _ _ ih =>
    obtain ⟨past, hpast⟩ := ih
    exact ⟨_, hpast.step op⟩
  | paired ops _ ih =>
    obtain ⟨past, hpast⟩ := ih
    exact ⟨_, hpast.paired ops⟩

/-! ## Scopes of a history -/

theorem verdict_scopeBegin_iff (hrun : s.stopped = false) {id : ScopeId} :
    (s.step (.scopeBegin id)).1 = .ok ↔ ¬ s.scopes.any (·.id == id) = true := by
  rw [step_ok_iff hrun, apply, beginScope]
  change (if s.scopes.any (·.id == id) = true then _ else _ : Option Fault × Session).1 = none ↔ _
  split
  next h => simp [h]
  next h => simp [h]

theorem closes_scopeEnd (hrun : s.stopped = false) (id : ScopeId) : Event.closes ⟨s, .scopeEnd id⟩ = s.closes id := by
  rw [Event.closes, Event.verdict]
  rcases s.step_cases hrun (.scopeEnd id) with ⟨hnone, hstep⟩ | ⟨fault, hfault, hstep⟩
  · rw [hstep]
    cases hcloses : s.closes id with
    | true => rfl
    | false =>
      rw [apply, endScope_of_not_closes (s := s.refreshed) (by rw [← Bool.not_eq_true] at hcloses; exact hcloses)] at hnone
      exact absurd hnone (by simp)
  · rw [hstep]
    cases hcloses : s.closes id with
    | true =>
      rw [apply, endScope_of_closes (s := s.refreshed) hcloses] at hfault
      obtain ⟨p, -, loan, -, rfl, -⟩ := Registry.buryAll_eq_some hfault
      rfl
    | false =>
      rw [apply, endScope_of_not_closes (s := s.refreshed) (by rw [← Bool.not_eq_true] at hcloses; exact hcloses)] at hfault
      cases hfault
      rfl

theorem openings_of_stopped (hstop : s.stopped = true) (op : Operation) :
    openings (⟨s, op⟩ :: past) = openings past := by
  have hverdict : Event.verdict ⟨s, op⟩ = .unchecked := by rw [Event.verdict, step_of_stopped hstop]
  cases op with
  | scopeBegin id => simp [openings, hverdict]
  | scopeEnd id => simp [openings, Event.closes, hverdict]
  | _ => rfl

theorem openings_scopeBegin (hrun : s.stopped = false) (id : ScopeId) :
    openings (⟨s, .scopeBegin id⟩ :: past) =
      if s.scopes.any (·.id == id) then openings past else ⟨id, some past.length⟩ :: openings past := by
  rw [openings, Event.verdict]
  simp only [verdict_scopeBegin_iff hrun, ite_not]

theorem openings_scopeEnd (hrun : s.stopped = false) (id : ScopeId) :
    openings (⟨s, .scopeEnd id⟩ :: past) = if s.closes id then (openings past).tail else openings past := by
  rw [openings, closes_scopeEnd hrun]

/-- The scopes that the history has open are those of the session. -/
theorem History.ids_openings (h : History config past s) : (openings past).map (·.id) = s.scopes.map (·.id) := by
  induction h with
  | start => rfl
  | paired ops _ ih => exact ih
  | @step past s op _ ih =>
    cases hrun : s.stopped with
    | true =>
      rw [openings_of_stopped hrun, step_of_stopped hrun]
      exact ih
    | false =>
      rw [scopes_step hrun]
      cases op with
      | scopeBegin id =>
        rw [openings_scopeBegin hrun, scopesAfter]
        split
        · exact ih
        · exact congrArg (id :: ·) ih
      | scopeEnd id =>
        rw [openings_scopeEnd hrun, scopesAfter]
        split
        · rw [List.map_tail, List.map_tail, ih]
        · exact ih
      | _ => exact ih

theorem History.nodup_ids (h : History config past s) : ((openings past).map (·.id)).Nodup := by
  rw [h.ids_openings]
  exact h.reachable.stacked_housed.1.distinct

/-- The innermost scope of the session is that of the history. -/
theorem History.innermost (h : History config past s) :
    ∃ scope outer, openings past = scope :: outer ∧ scope.id = s.currentScope := by
  have hids := h.ids_openings
  have hstack := h.reachable.stacked_housed.1.outermost
  rw [currentScope]
  cases hscopes : s.scopes with
  | nil =>
    rw [hscopes] at hstack
    exact absurd hstack (by simp)
  | cons innermost rest =>
    rw [hscopes] at hids
    obtain ⟨scope, outer, hopenings, hid, -⟩ := List.map_eq_cons_iff.mp hids
    exact ⟨scope, outer, hopenings, hid⟩

end Session

end BorrowChecker
