import BorrowChecker.Proofs.Scoping
import BorrowChecker.Proofs.Settings
import Mathlib.Data.List.Nodup

/-!
# Foreseen ends

A scope that opens gets its end from the pairing, which is made before the run and sees every operation that opens a
scope. The run turns some of them down. Then the pairing has a scope open that the session has not, and the next
operation that closes the scope around it is counted for the inner one (`closing_taken_by_rejected_scope`).

So look at a scope from the operation that opens it to the one that closes it. At any time in between, the scopes that
the session has open within it are among those that the pairing has open there (`Within`). The foreseen end is the real
one exactly if the pairing has none left when the scope closes. That is the case if no opening has been turned down
meanwhile, and otherwise the foreseen end comes too late.
-/

namespace BorrowChecker

namespace Scope

/-- Every scope that is opened in the stream is closed in it as well, as the pairing sees it. The first operation has
index `i`. -/
def Balanced (i : Nat) (ops : List Operation) : Prop := advanceAll [] i ops = []

instance (i : Nat) (ops : List Operation) : Decidable (Balanced i ops) :=
  inferInstanceAs (Decidable (advanceAll [] i ops = []))

/-- What happens above an entry of the stack leaves it and those below in place. -/
theorem advance_append {above below : List (ScopeId × Nat)} {entry : ScopeId × Nat} {op : Operation}
    (h : above = [] → op ≠ .scopeEnd entry.1) (i : Nat) :
    advance (above ++ entry :: below) i op = advance above i op ++ entry :: below := by
  cases op with
  | scopeEnd id =>
    cases above with
    | nil =>
      have hid : entry.1 ≠ id := fun hid => h rfl (congrArg Operation.scopeEnd hid.symm)
      simp [advance, hid]
    | cons top outer => by_cases hid : top.1 = id <;> simp [advance, hid]
  | _ => rfl

end Scope

namespace Session

variable {s : Session} {op : Operation} {id : ScopeId} {rest : List Operation}

/-! ## Scopes that stay open -/

instance (s : Session) (id : ScopeId) : Decidable (s.IsOpen id) :=
  inferInstanceAs (Decidable (id ∈ s.scopes.map (·.id)))

/-- The scope is open, and stays so throughout the operations. -/
def StaysOpen (s : Session) (id : ScopeId) : List Operation → Prop
  | [] => s.IsOpen id
  | op :: ops => s.IsOpen id ∧ (s.step op).2.StaysOpen id ops

instance decidableStaysOpen (id : ScopeId) : ∀ (ops : List Operation) (s : Session), Decidable (s.StaysOpen id ops)
  | [], s => inferInstanceAs (Decidable (s.IsOpen id))
  | op :: ops, s =>
    have := decidableStaysOpen id ops (s.step op).2
    inferInstanceAs (Decidable (s.IsOpen id ∧ (s.step op).2.StaysOpen id ops))

theorem StaysOpen.isOpen {ops : List Operation} (h : s.StaysOpen id ops) : s.IsOpen id := by
  cases ops with
  | nil => exact h
  | cons op ops => exact h.1

theorem StaysOpen.of_append {done : List Operation} (h : s.StaysOpen id (done ++ rest)) : s.StaysOpen id done := by
  induction done generalizing s with
  | nil => exact h.isOpen
  | cons op done ih => exact ⟨h.1, ih h.2⟩

/-- No operation that opens a scope is turned down. -/
def OpensAll (s : Session) : List Operation → Prop
  | [] => True
  | op :: ops => (∀ id, op = .scopeBegin id → (s.step op).1 = .ok) ∧ (s.step op).2.OpensAll ops

theorem running_of_step (h : (s.step op).2.stopped = false) : s.stopped = false := by
  by_contra hstop
  rw [Bool.not_eq_false] at hstop
  rw [step_of_stopped hstop, hstop] at h
  exact Bool.noConfusion h

theorem running_of_stepAll {ops : List Operation} (h : (s.stepAll ops).2.stopped = false) : s.stopped = false := by
  induction ops generalizing s with
  | nil => exact h
  | cons op ops ih => exact running_of_step (ih h)

/-- A session that fails fast and is still running has turned nothing down. -/
theorem opensAll_of_failFast {ops : List Operation} (hmode : s.config.mode = .failFast)
    (hrun : (s.stepAll ops).2.stopped = false) : s.OpensAll ops := by
  induction ops generalizing s with
  | nil => trivial
  | cons op ops ih =>
    have hnext : (s.step op).2.stopped = false := running_of_stepAll hrun
    have hmode' : (s.step op).2.config.mode = .failFast := (congrArg Config.mode (s.settings_step op).1).trans hmode
    refine ⟨fun _ _ => ?_, ih hmode' hrun⟩
    rcases s.step_cases (running_of_step hnext) op with ⟨-, hstep⟩ | ⟨fault, -, hstep⟩
    · rw [hstep]
    · rw [hstep, stopsOn, hmode] at hnext
      exact Bool.noConfusion hnext

theorem fresh_of_opened (hok : (s.step (.scopeBegin id)).1 = .ok) : ¬ s.scopes.any (·.id == id) = true := by
  obtain ⟨-, hnone, -⟩ := step_accepted hok
  intro hopen
  have hopen : s.refreshed.scopes.any (·.id == id) = true := hopen
  rw [apply, beginScope, if_pos hopen] at hnone
  exact absurd hnone (by simp)

theorem scopes_of_opened (hok : (s.step (.scopeBegin id)).1 = .ok) :
    (s.step (.scopeBegin id)).2.scopes = s.expected (id, s.next) :: s.scopes := by
  rw [scopes_step (step_accepted hok).1, scopesAfter, if_neg (fresh_of_opened hok)]
  rfl

/-! ## Within a scope -/

/-- The session is in the midst of a run and has `scope` open since the operation `start`, within the scopes `outer`. At
that time the pairing had `below` open. Now it has `above` open within the scope. What the session has open there is among
these, and nothing is missing if the two `agree`. -/
structure Within (agree : Prop) (s : Session) (scope : OpenScope) (outer : List OpenScope) (start : Nat)
    (below above : List (ScopeId × Nat)) (rest : List Operation) : Prop where
  scheduled : s.Scheduled (above ++ (scope.id, start) :: below) rest
  foreseen : s.expected (scope.id, start) = scope
  stacked : Stacked (scope :: outer)
  layer : ∃ current : List (ScopeId × Nat), current.Sublist above ∧ (∀ entry ∈ current, entry.1 ≠ .root) ∧
    s.scopes = current.map s.expected ++ scope :: outer ∧ (agree → current = above)

theorem Scheduled.within {agree : Prop} {opened : List (ScopeId × Nat)} (h : s.Scheduled opened (.scopeBegin id :: rest))
    (hstack : Stacked s.scopes) (hok : (s.step (.scopeBegin id)).1 = .ok) :
    Within agree (s.step (.scopeBegin id)).2 (s.expected (id, s.next)) s.scopes s.next opened [] rest where
  scheduled := h.step (step_accepted hok).1
  foreseen := by rw [expected_step (step_accepted hok).1]; rfl
  stacked := hstack.push (by simpa [expected] using fresh_of_opened hok)
  layer := ⟨[], List.Sublist.refl _, fun _ hnone => absurd hnone List.not_mem_nil, scopes_of_opened hok, fun _ => rfl⟩

namespace Within

variable {agree : Prop} {scope : OpenScope} {outer : List OpenScope} {start : Nat} {below above : List (ScopeId × Nat)}

theorem mem_scopes (h : Within agree s scope outer start below above rest) : scope ∈ s.scopes := by
  obtain ⟨current, -, -, hscopes, -⟩ := h.layer
  rw [hscopes]
  exact List.mem_append_right _ List.mem_cons_self

theorem stop_of_tied {config : Config} (h : Within agree s scope outer start below above rest) (hs : Reachable config s)
    {loan : Loan} (hloan : loan ∈ s.ledger.loans) (hregion : loan.region = .scope scope.id) : loan.stop = scope.stop := by
  have hsame : ⟨scope.id, loan.stop⟩ = scope :=
    List.inj_on_of_nodup_map hs.stacked_housed.1.distinct (hs.tied loan hloan scope.id hregion) h.mem_scopes rfl
  exact congrArg OpenScope.stop hsame

/-- The session keeps the scope as long as it stays open. -/
theorem step (h : Within agree s scope outer start below above (op :: rest)) (hid : scope.id ≠ .root)
    (hrun : s.stopped = false) (hopen : (s.step op).2.IsOpen scope.id)
    (hagree : agree → ∀ id, op = .scopeBegin id → (s.step op).1 = .ok) :
    Within agree (s.step op).2 scope outer start below (Scope.advance above s.next op) rest := by
  obtain ⟨current, hsub, hinner, hscopes, hsame⟩ := h.layer
  have hroot : ∃ other ∈ scope :: outer, other.id = .root := ⟨_, List.mem_of_getLast? h.stacked.outermost, rfl⟩
  have hbase : current = [] → ∀ id, op = .scopeEnd id → ¬ s.closes id = true := by
    rintro rfl closing rfl hcloses
    rw [IsOpen, scopes_step hrun, scopesAfter, if_pos hcloses, hscopes] at hopen
    exact (List.nodup_cons.mp h.stacked.distinct).1 hopen
  have habove : above = [] → op ≠ .scopeEnd scope.id := by
    rintro rfl hop
    obtain rfl := List.sublist_nil.mp hsub
    refine hbase rfl scope.id hop (closes_iff.mpr ⟨hid, ?_⟩)
    rw [currentScope, hscopes]
    rfl
  obtain ⟨current', hsub', hinner', hscopes', hsame'⟩ := layer_step hsub hinner hscopes hroot hbase
  refine ⟨?_, by rw [expected_step hrun, h.foreseen], h.stacked, current', hsub', hinner', ?_, fun hall => ?_⟩
  · have hscheduled := h.scheduled.step hrun
    rwa [Scope.advance_append habove] at hscheduled
  · rw [scopes_step hrun, hscopes', expected_step hrun]
  · refine hsame' (hsame hall) ?_
    rintro opening rfl
    exact fresh_of_opened (hagree hall opening rfl)

theorem stepAll {done : List Operation} (h : Within agree s scope outer start below above (done ++ rest))
    (hid : scope.id ≠ .root) (hrun : (s.stepAll done).2.stopped = false) (hstays : s.StaysOpen scope.id done)
    (hagree : agree → s.OpensAll done) :
    Within agree (s.stepAll done).2 scope outer start below (Scope.advanceAll above s.next done) rest := by
  induction done generalizing s above with
  | nil => exact h
  | cons op done ih =>
    have hnext : (s.step op).2.stopped = false := running_of_stepAll hrun
    have hone := h.step hid (running_of_step hnext) hstays.2.isOpen fun hall => (hagree hall).1
    have hall := ih hone hrun hstays.2 fun hall => (hagree hall).2
    rwa [next_step] at hall

/-! ## The operation that closes the scope -/

/-- If the pairing has nothing left open within the scope, it sees the scope close here. -/
theorem stop_eq (h : Within agree s scope outer start below [] (.scopeEnd scope.id :: rest)) : scope.stop = s.next := by
  have hknown := h.scheduled.known start (Or.inl List.mem_cons_self)
  rw [List.nil_append, Scope.pairsFrom, if_pos rfl, List.lookup_cons_self] at hknown
  rw [← h.foreseen, expected, hknown]
  rfl

/-- Otherwise it takes the closing for that of another scope, or for nothing. -/
theorem stop_later (h : Within agree s scope outer start below above (.scopeEnd scope.id :: rest))
    (hrun : s.stopped = false) (habove : above ≠ []) : s.next < scope.stop ∨ scope.stop = lastIndex := by
  have hscheduled := h.scheduled.step hrun
  rw [Scope.advance_append fun hnone => absurd hnone habove] at hscheduled
  have hlater := hscheduled.closes_later (List.mem_append_right _ List.mem_cons_self)
  rwa [expected_step hrun, h.foreseen, next_step] at hlater

/-- The scope is the innermost one when it closes, so the pairing has nothing left within it if the two agree. -/
theorem above_eq_nil (h : Within agree s scope outer start below above rest) (hstack : Stacked s.scopes)
    (hcloses : s.closes scope.id = true) (hagree : agree) : above = [] := by
  obtain ⟨current, -, -, hscopes, hsame⟩ := h.layer
  rw [← hsame hagree]
  by_contra hne
  obtain ⟨entry, inner, rfl⟩ := List.exists_cons_of_ne_nil hne
  have hcurrent : entry.1 = scope.id := by
    rw [← (closes_iff.mp hcloses).2, currentScope, hscopes]
    rfl
  have hdistinct := hstack.distinct
  rw [hscopes] at hdistinct
  refine (List.nodup_cons.mp hdistinct).1 ?_
  change entry.1 ∈ _
  rw [hcurrent]
  exact List.mem_map_of_mem (List.mem_append_right _ List.mem_cons_self)

end Within

/-! ## From opening to closing -/

/-- The session opens the scope, keeps it open during the operations that follow, and then closes it. -/
structure Encloses (s : Session) (id : ScopeId) (during : List Operation) : Prop where
  opened : (s.step (.scopeBegin id)).1 = .ok
  stays : (s.step (.scopeBegin id)).2.StaysOpen id during
  closed : ¬ (((s.step (.scopeBegin id)).2.stepAll during).2.step (.scopeEnd id)).2.IsOpen id

theorem closes_of_closed (hopen : s.IsOpen id) (hclosed : ¬ (s.step (.scopeEnd id)).2.IsOpen id) :
    s.stopped = false ∧ s.closes id = true := by
  have hrun : s.stopped = false := by
    by_contra hstop
    rw [Bool.not_eq_false] at hstop
    rw [step_of_stopped hstop] at hclosed
    exact hclosed hopen
  refine ⟨hrun, ?_⟩
  by_contra hcloses
  rw [IsOpen, scopes_step hrun, scopesAfter, if_neg hcloses] at hclosed
  exact hclosed hopen

theorem StaysOpen.isOpen_stepAll {ops : List Operation} (h : s.StaysOpen id ops) : (s.stepAll ops).2.IsOpen id := by
  induction ops generalizing s with
  | nil => exact h
  | cons op ops ih => exact ih h.2

/-- Whatever has been turned down, the session keeps the scope with its end until it closes it. -/
theorem Encloses.within {agree : Prop} {during done later : List Operation} {below : List (ScopeId × Nat)}
    (h : s.Encloses id during) (hstack : Stacked s.scopes)
    (hscheduled : s.Scheduled below (.scopeBegin id :: (during ++ rest))) (hsplit : during = done ++ later)
    (hagree : agree → (s.step (.scopeBegin id)).2.OpensAll done) :
    Within agree ((s.step (.scopeBegin id)).2.stepAll done).2 (s.expected (id, s.next)) s.scopes s.next below
      (Scope.advanceAll [] (s.next + 1) done) (later ++ rest) := by
  obtain ⟨hrun, hcloses⟩ := closes_of_closed h.stays.isOpen_stepAll h.closed
  have hid : id ≠ .root := (closes_iff.mp hcloses).1
  subst hsplit
  rw [stepAll_append] at hrun
  rw [List.append_assoc] at hscheduled
  have hamid := (hscheduled.within hstack h.opened).stepAll hid (running_of_stepAll hrun) h.stays.of_append hagree
  rwa [next_step] at hamid

/-- **When the end of a scope is foreseen.** Take any stream, in any configuration, and a scope that one of its operations
opens and a later one closes. The end that was noted when the scope was opened, and that every loan tied to it has, is the
index of the closing operation if the pairing finds the operations in between balanced, and comes later than that if it
does not. They are balanced if none of them was turned down when it tried to open a scope, and in particular if the
session fails fast. -/
theorem foreseen_end_exact_if_balanced (config : Config) (before during after : List Operation) (id : ScopeId) :
    let ops := before ++ .scopeBegin id :: (during ++ .scopeEnd id :: after)
    let s := ((({ config } : Session).paired ops).stepAll before).2
    let opened := (s.step (.scopeBegin id)).2
    let closing := before.length + 1 + during.length
    s.Encloses id during → ∃ stop, opened.scopes = ⟨id, stop⟩ :: s.scopes ∧
      (∀ done later, during = done ++ later → ∀ loan ∈ (opened.stepAll done).2.ledger.loans, loan.region = .scope id →
        loan.stop = stop) ∧
      (Scope.Balanced (before.length + 1) during → stop = closing) ∧
      (¬ Scope.Balanced (before.length + 1) during → closing < stop ∨ stop = lastIndex) ∧
      (config.mode = .failFast ∨ opened.OpensAll during → Scope.Balanced (before.length + 1) during) := by
  intro ops s opened closing h
  have hs : Reachable config s := (Reachable.start config).amid before _
  have hopened : Reachable config opened := hs.step _
  have hstack : Stacked s.scopes := hs.stacked_housed.1
  have hnext : s.next = before.length := (next_stepAll _ _).trans (Nat.zero_add _)
  obtain ⟨hrun, hcloses⟩ := closes_of_closed h.stays.isOpen_stepAll h.closed
  have hschedule : s.OnSchedule (.scopeBegin id :: (during ++ .scopeEnd id :: after)) :=
    OnSchedule.stepAll fun _ => ⟨[], scheduled_start config ops⟩
  obtain ⟨below, hscheduled⟩ := hschedule (step_accepted h.opened).1
  have hend := h.within hstack hscheduled (List.append_nil during).symm fun hall : opened.OpensAll during => hall
  have hclosing : (opened.stepAll during).2.next = closing := by rw [next_stepAll, next_step, hnext]
  rw [← hnext]
  refine ⟨(s.expected (id, s.next)).stop, scopes_of_opened h.opened, ?_, fun hbalanced => ?_, fun hunbalanced => ?_,
    fun hall => ?_⟩
  · intro done later hsplit loan hloan hregion
    have hamid := h.within hstack hscheduled hsplit False.elim
    exact hamid.stop_of_tied (hopened.stepAll done) hloan hregion
  · rw [hbalanced] at hend
    exact hend.stop_eq.trans hclosing
  · rw [← hclosing]
    exact hend.stop_later hrun hunbalanced
  · refine hend.above_eq_nil (hopened.stepAll during).stacked_housed.1 hcloses ?_
    rcases hall with hfast | hall
    · have hconfig : opened.config = config := (settings_step _ _).1.trans (settings_stepAll _ before).1
      exact opensAll_of_failFast (hconfig ▸ hfast) hrun
    · exact hall

/-- Loans tied to a scope, within which another scope is opened and closed. -/
theorem scope_around_scope_foreseen :
    let before : List Operation := [.bindFreshMut (.var ⟨0⟩)]
    let during : List Operation := [.borrowShared (.var ⟨0⟩) (.var ⟨1⟩) (.scope ⟨1⟩), .scopeBegin ⟨2⟩,
      .borrowShared (.var ⟨0⟩) (.var ⟨2⟩) (.scope ⟨1⟩), .scopeEnd ⟨2⟩]
    let ops := before ++ .scopeBegin ⟨1⟩ :: (during ++ [.scopeEnd ⟨1⟩])
    let s := ((({} : Session).paired ops).stepAll before).2
    let opened := (s.step (.scopeBegin ⟨1⟩)).2
    s.Encloses ⟨1⟩ during ∧ opened.scopes = ⟨⟨1⟩, 6⟩ :: s.scopes ∧
    (opened.stepAll (during.take 3)).2.ledger.loans.map (·.stop) = [6, 6] := by
  intro before during ops s opened
  have hencloses : s.Encloses ⟨1⟩ during := ⟨by decide, by decide, by decide⟩
  obtain ⟨stop, hscopes, -, hexact, -⟩ := foreseen_end_exact_if_balanced {} before during [] ⟨1⟩ hencloses
  have hstop : stop = 6 := hexact (by decide)
  subst hstop
  exact ⟨hencloses, hscopes, by decide⟩

/-- A scope is open, and the attempt to open it again is turned down. The operation that closes the scope is counted for
the attempt, so the loan that is tied to the scope is noted to end never. A reborrow that asks for more time than the loan
really has is let through, although reborrows are to end before what they are derived from. -/
theorem closing_taken_by_rejected_scope :
    let ops : List Operation := [.scopeBegin ⟨1⟩, .bindFreshMut (.var ⟨0⟩),
      .borrowExclusive (.var ⟨0⟩) (.var ⟨1⟩) (.scope ⟨1⟩), .scopeBegin ⟨1⟩,
      .borrowExclusive ⟨⟨1⟩, [.deref]⟩ (.var ⟨2⟩) (.span 4 9), .scopeEnd ⟨1⟩]
    let amid := (({ config := { mode := .collectAll } } : Session).paired ops).stepAll (ops.take 5)
    let last := amid.2.step (.scopeEnd ⟨1⟩)
    amid.1.map (·.isOk) = [true, true, true, false, true] ∧ last.1 = .ok ∧
    amid.2.scopes = [⟨⟨1⟩, lastIndex⟩, ⟨.root, lastIndex⟩] ∧ last.2.scopes = [⟨.root, lastIndex⟩] ∧
    amid.2.ledger.loans.map (fun loan => (loan.region, loan.stop)) = [(.scope ⟨1⟩, lastIndex), (.span 4 9, 9)] := by
  decide

end Session

end BorrowChecker
