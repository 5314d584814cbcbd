import BorrowChecker.Proofs.Pairing
import BorrowChecker.Proofs.Turnover

/-!
# Scopes on schedule

A loan tied to a scope carries the index of the operation that is expected to close the scope, found by pairing before
the run. Pairing and run do not see the same scopes: a scope that is opened twice is turned down by the run, and paired
all the same. But the scopes that are open in a run are always among those that the pairing has open at that point
(`Scheduled`), so no open scope is overdue, and neither is any loan that is still there when an operation is applied
(`time_left`).
-/

namespace BorrowChecker

namespace Session

variable {s : Session} {op : Operation} {opened : List (ScopeId × Nat)} {rest : List Operation}

/-! ## Open scopes -/

/-- The open scopes after an operation, whatever the verdict. -/
def scopesAfter (s : Session) : Operation → List OpenScope
  | .scopeBegin id =>
    if s.scopes.any (·.id == id) then s.scopes else ⟨id, (s.pairs.lookup s.next).getD lastIndex⟩ :: s.scopes
  | .scopeEnd id => if s.closes id then s.scopes.tail else s.scopes
  | _ => s.scopes

theorem ensureHolder_frame (holder : Place) (kind : BorrowKind) :
    s.ensureHolder holder kind = { s with registry := (s.ensureHolder holder kind).registry } := by
  rcases s.ensureHolder_cases holder kind with hsame | ⟨-, -, hdeclared⟩
  · rw [hsame]
  · rw [hdeclared]

/-- An operation changes the registry and the open scopes, and nothing else. -/
theorem apply_frame (s : Session) (op : Operation) :
    (s.apply op).2 = { s with registry := (s.apply op).2.registry, scopes := s.scopesAfter op } := by
  have hguarded : ∀ {α : Type} (check : Except Fault α) (change : α → Registry),
      (s.guarded check change).2 = { s with registry := (s.guarded check change).2.registry } := by
    intro α check change
    cases check <;> rfl
  cases op with
  | scopeBegin id =>
    rw [apply, beginScope, scopesAfter]
    split <;> rfl
  | scopeEnd id =>
    rw [apply, scopesAfter]
    split
    next hcloses => rw [endScope_of_closes hcloses]
    next hcloses => rw [endScope_of_not_closes hcloses]
  | bind target init mutable perms facts =>
    rcases s.bind_cases target init mutable perms facts with
      ⟨fault, -, hbind⟩ | ⟨source, e, -, -, hbind⟩ | ⟨source, store, -, -, hbind⟩
    all_goals
      rw [apply, hbind]
      rfl
  | borrow source kind holder region =>
    rcases s.borrow_cases source kind holder region with
      ⟨fault, -, hborrow⟩ | ⟨stop, -, ⟨e, -, hborrow⟩ | ⟨id, ledger, -, ⟨fault, -, hborrow⟩ | ⟨t, hprepare, hborrow⟩⟩⟩
    · rw [apply, hborrow]
      exact ensureHolder_frame holder kind
    · rw [apply, hborrow]
      exact ensureHolder_frame holder kind
    · rw [apply, hborrow]
      rfl
    · rw [apply, hborrow]
      rcases (prepareHolder_cases hprepare).2 with ⟨-, -, rfl⟩ | ⟨-, store, -, rfl⟩ | ⟨-, store, -, rfl⟩
      all_goals rfl
  | project p facts => exact hguarded _ _
  | move p => exact hguarded _ _
  | copy p => exact hguarded _ _
  | mutate p => exact hguarded _ _
  | access p needs => exact hguarded _ _
  | drop p => exact hguarded _ _
  | release p => exact hguarded _ _
  | split array boundary => exact hguarded _ _
  | unchecked p => rfl

theorem scopes_step (hrun : s.stopped = false) (op : Operation) : (s.step op).2.scopes = s.scopesAfter op := by
  obtain ⟨stopped, hstep⟩ := s.step_running hrun op
  rw [hstep, apply_frame]
  cases op <;> rfl

theorem pairs_step (hrun : s.stopped = false) (op : Operation) : (s.step op).2.pairs = s.pairs := by
  obtain ⟨stopped, hstep⟩ := s.step_running hrun op
  rw [hstep, apply_frame]
  rfl

/-! ## The schedule of a run -/

/-- The scope that an operation has opened, with the end that the pairing gives it. -/
def expected (s : Session) (entry : ScopeId × Nat) : OpenScope := ⟨entry.1, (s.pairs.lookup entry.2).getD lastIndex⟩

theorem expected_step (hrun : s.stopped = false) (op : Operation) : (s.step op).2.expected = s.expected := by
  funext entry
  rw [expected, expected, pairs_step hrun]

/-- The session is in the midst of a run: the operations `rest` are to come, and the pairing has the scopes `opened` open.
The session knows how these close and how those to come do, and its own open scopes are among them. -/
structure Scheduled (s : Session) (opened : List (ScopeId × Nat)) (rest : List Operation) : Prop where
  known : ∀ b, b ∈ opened.map (·.2) ∨ s.next ≤ b → s.pairs.lookup b = (Scope.pairsFrom opened s.next rest).lookup b
  started : ∀ entry ∈ opened, entry.2 < s.next
  distinct : (opened.map (·.2)).Nodup
  current : ∃ current : List (ScopeId × Nat), current.Sublist opened ∧ (∀ entry ∈ current, entry.1 ≠ .root) ∧
    s.scopes = current.map s.expected ++ [⟨.root, lastIndex⟩]

theorem scheduled_start (config : Config) (ops : List Operation) :
    (({ config } : Session).paired ops).Scheduled [] ops where
  known b _ := by
    change (Scope.pairsFrom [] 0 ops ++ []).lookup b = _
    rw [List.append_nil]
    rfl
  started _ h := absurd h List.not_mem_nil
  distinct := List.nodup_nil
  current := ⟨[], List.Sublist.refl _, fun _ h => absurd h List.not_mem_nil, rfl⟩

/-- The scopes that are open above `base` were opened by the operations `current`, which are among those that the pairing
has open there. An operation that closes none of `base` leaves it like that. If the pairing has no others open, and the
operation does not try to open a scope twice, then the pairing still has no others open. -/
theorem layer_step {base : List OpenScope} {above current : List (ScopeId × Nat)} (hsub : current.Sublist above)
    (hinner : ∀ entry ∈ current, entry.1 ≠ .root) (hscopes : s.scopes = current.map s.expected ++ base)
    (hroot : ∃ scope ∈ base, scope.id = .root)
    (hbase : current = [] → ∀ id, op = .scopeEnd id → ¬ s.closes id = true) :
    ∃ current' : List (ScopeId × Nat), current'.Sublist (Scope.advance above s.next op) ∧
      (∀ entry ∈ current', entry.1 ≠ .root) ∧ s.scopesAfter op = current'.map s.expected ++ base ∧
      (current = above → (∀ id, op = .scopeBegin id → ¬ s.scopes.any (·.id == id) = true) →
        current' = Scope.advance above s.next op) := by
  cases op with
  | scopeBegin id =>
    rw [scopesAfter, Scope.advance]
    split
    next hopen => exact ⟨current, hsub.cons _, hinner, hscopes, fun _ hfresh => absurd hopen (hfresh id rfl)⟩
    next hfresh =>
      have hid : id ≠ .root := by
        rintro rfl
        obtain ⟨scope, hscope, hscopeId⟩ := hroot
        refine hfresh (List.any_eq_true.mpr ⟨scope, ?_, by simp [hscopeId]⟩)
        rw [hscopes]
        exact List.mem_append_right _ hscope
      refine ⟨(id, s.next) :: current, hsub.cons_cons _, ?_, by rw [hscopes]; rfl, fun hall _ => by rw [hall]⟩
      intro entry hentry
      rcases List.mem_cons.mp hentry with rfl | hentry
      · exact hid
      · exact hinner entry hentry
  | scopeEnd id =>
    rw [scopesAfter, Scope.advance]
    cases current with
    | nil =>
      rw [if_neg (hbase rfl id rfl)]
      refine ⟨[], List.nil_sublist _, hinner, hscopes, fun hall _ => ?_⟩
      rw [← hall]
      rfl
    | cons entry outer =>
      have hcurrent : s.currentScope = entry.1 := by
        rw [currentScope, hscopes]
        rfl
      by_cases hid : entry.1 = id
      · -- the innermost open scope is closed, and it leaves the stack of the pairing if it was on top there
        have hcloses : s.closes id = true := closes_iff.mpr ⟨hid ▸ hinner entry List.mem_cons_self, hcurrent.trans hid⟩
        rw [if_pos hcloses]
        refine ⟨outer, ?_, fun e he => hinner e (List.mem_cons_of_mem _ he), by rw [hscopes]; rfl, ?_⟩
        · split
          · exact hsub.tail
          · exact (List.sublist_cons_self _ _).trans hsub
        · rintro rfl -
          simp [hid]
      · have hcloses : ¬ s.closes id = true := fun hcloses => hid (hcurrent.symm.trans (closes_iff.mp hcloses).2)
        rw [if_neg hcloses]
        refine ⟨entry :: outer, ?_, hinner, hscopes, ?_⟩
        · split
          next htop =>
            cases hsub with
            | cons _ hsub => exact hsub
            | cons_cons _ hsub => exact absurd (by simpa using htop) hid
          next => exact hsub
        · rintro rfl -
          simp [hid]
  | _ => exact ⟨current, hsub, hinner, hscopes, fun hall _ => hall⟩

theorem Scheduled.current_step (h : s.Scheduled opened (op :: rest)) :
    ∃ current : List (ScopeId × Nat), current.Sublist (Scope.advance opened s.next op) ∧
      (∀ entry ∈ current, entry.1 ≠ .root) ∧
      s.scopesAfter op = current.map s.expected ++ [⟨.root, lastIndex⟩] := by
  obtain ⟨current, hsub, hinner, hscopes⟩ := h.current
  -- the outermost scope is not closed
  have hbase : current = [] → ∀ id, op = .scopeEnd id → ¬ s.closes id = true := by
    rintro rfl id - hcloses
    obtain ⟨hid, hcurrent⟩ := closes_iff.mp hcloses
    rw [currentScope, hscopes] at hcurrent
    exact hid hcurrent.symm
  obtain ⟨current', hsub', hinner', hscopes', -⟩ :=
    layer_step hsub hinner hscopes ⟨_, List.mem_singleton_self _, rfl⟩ hbase
  exact ⟨current', hsub', hinner', hscopes'⟩

theorem Scheduled.step (hrun : s.stopped = false) (h : s.Scheduled opened (op :: rest)) :
    (s.step op).2.Scheduled (Scope.advance opened s.next op) rest where
  known b hb := by
    rw [next_step] at hb ⊢
    have hb' : b ∈ opened.map (·.2) ∨ s.next ≤ b := by
      rcases hb with hb | hb
      · obtain ⟨entry, hentry, rfl⟩ := List.mem_map.mp hb
        rcases Scope.mem_advance hentry with hopened | hstart
        · exact Or.inl (List.mem_map_of_mem hopened)
        · exact Or.inr (Nat.le_of_eq hstart.symm)
      · exact Or.inr (Nat.le_of_succ_le hb)
    rw [pairs_step hrun, h.known b hb', Scope.lookup_pairsFrom_cons h.started h.distinct op rest hb]
  started entry hentry := by
    rw [next_step]
    rcases Scope.mem_advance hentry with hopened | hstart
    · exact Nat.lt_succ_of_lt (h.started entry hopened)
    · exact Nat.lt_succ_of_le (Nat.le_of_eq hstart)
  distinct := Scope.nodup_advance h.started h.distinct op
  current := by
    obtain ⟨current, hsub, hinner, hscopes⟩ := h.current_step
    refine ⟨current, hsub, hinner, ?_⟩
    rw [scopes_step hrun, hscopes, expected_step hrun]

/-- The pairing closes what it has open at some later operation or never. -/
theorem Scheduled.closes_later (h : s.Scheduled opened rest) {entry : ScopeId × Nat} (hentry : entry ∈ opened) :
    s.next ≤ (s.expected entry).stop ∨ (s.expected entry).stop = lastIndex := by
  rw [expected, h.known entry.2 (Or.inl (List.mem_map_of_mem hentry))]
  cases hlookup : (Scope.pairsFrom opened s.next rest).lookup entry.2 with
  | none => exact Or.inr rfl
  | some stop =>
    obtain ⟨before, after, hpairs, -⟩ := List.lookup_eq_some_iff.mp hlookup
    have hmem : (entry.2, stop) ∈ Scope.pairsFrom opened s.next rest := by
      rw [hpairs]
      exact List.mem_append_right _ List.mem_cons_self
    exact Or.inl (Scope.bounds_of_mem_pairsFrom hmem).2.1

/-- No open scope is overdue. -/
theorem Scheduled.not_overdue (h : s.Scheduled opened rest) {scope : OpenScope} (hscope : scope ∈ s.scopes) :
    s.next ≤ scope.stop ∨ scope.stop = lastIndex := by
  obtain ⟨current, hsub, -, hscopes⟩ := h.current
  rw [hscopes] at hscope
  rcases List.mem_append.mp hscope with hinner | houter
  · obtain ⟨entry, hentry, rfl⟩ := List.mem_map.mp hinner
    exact h.closes_later (hsub.subset hentry)
  · rw [List.mem_singleton.mp houter]
    exact Or.inr rfl

/-- The session is in the midst of a run with the operations `rest` to come, as long as it has not stopped. -/
def OnSchedule (s : Session) (rest : List Operation) : Prop := s.stopped = false → ∃ opened, s.Scheduled opened rest

theorem OnSchedule.step (h : s.OnSchedule (op :: rest)) : (s.step op).2.OnSchedule rest := by
  intro hrun'
  cases hrun : s.stopped with
  | true =>
    rw [step_of_stopped hrun, hrun] at hrun'
    exact Bool.noConfusion hrun'
  | false =>
    obtain ⟨opened, hscheduled⟩ := h hrun
    exact ⟨_, hscheduled.step hrun⟩

theorem OnSchedule.stepAll {done : List Operation} (h : s.OnSchedule (done ++ rest)) :
    (s.stepAll done).2.OnSchedule rest := by
  induction done generalizing s with
  | nil => exact h
  | cons op done ih => exact ih h.step

/-! ## Loans tied to scopes -/

/-- A loan that is tied to a scope has the scope's end, and the scope is open. -/
def Tied (s : Session) : Prop :=
  ∀ loan ∈ s.ledger.loans, ∀ id, loan.region = .scope id → ⟨id, loan.stop⟩ ∈ s.scopes

theorem mem_scopesAfter {scope : OpenScope} (h : scope ∈ s.scopes)
    (hop : ∀ id, op = .scopeEnd id → s.closes id = true → scope.id ≠ id) : scope ∈ s.scopesAfter op := by
  cases op with
  | scopeBegin id =>
    rw [scopesAfter]
    split
    · exact h
    · exact List.mem_cons_of_mem _ h
  | scopeEnd id =>
    rw [scopesAfter]
    split
    next hcloses =>
      have hcurrent : s.currentScope = id := (closes_iff.mp hcloses).2
      rw [currentScope] at hcurrent
      cases hscopes : s.scopes with
      | nil =>
        rw [hscopes] at h
        exact h
      | cons innermost outer =>
        rw [hscopes] at h hcurrent
        rcases List.mem_cons.mp h with rfl | houter
        · exact absurd hcurrent (hop id rfl hcloses)
        · exact houter
    next => exact h
  | _ => exact h

theorem apply_tied (hledger : s.ledger.Disciplined) (hplaced : s.store.Placed) (h : s.Tied) (op : Operation) :
    (s.apply op).2.Tied := by
  intro loan hloan id hregion
  rw [apply_frame]
  by_cases heffect : s.TakesEffect op
  · rw [loans_apply hledger hplaced heffect] at hloan
    rcases List.mem_append.mp hloan with hkept | hnew
    · obtain ⟨old, hold, hfate⟩ := List.mem_filterMap.mp hkept
      have hsame := eq_of_fate hfate
      rw [hsame] at hregion ⊢
      refine mem_scopesAfter (h old hold id hregion) ?_
      -- the loans tied to a scope that closes are not kept
      rintro closing rfl hcloses rfl
      rw [fate, hcloses, outlasts] at hfate
      simp only at hregion
      simp [hregion] at hfate
    · cases op with
      | borrow source kind holder region =>
        obtain ⟨stop, hstop, rfl⟩ := List.mem_map.mp hnew
        rw [Option.mem_toList] at hstop
        simp only at hregion
        subst hregion
        obtain ⟨scope, hfind, rfl⟩ := Option.map_eq_some_iff.mp hstop
        have hid : scope.id = id := by simpa using List.find?_some hfind
        have hmem := List.mem_of_find?_eq_some hfind
        rw [← hid]
        exact hmem
      | _ => exact absurd hnew List.not_mem_nil
  · rw [loans_apply_of_not hledger heffect] at hloan
    refine mem_scopesAfter (h loan hloan id hregion) ?_
    rintro closing rfl
    exact absurd (Or.inr ⟨closing, rfl⟩) heffect

theorem Reachable.tied {config : Config} (h : Reachable config s) : s.Tied := by
  refine h.preserved (fun _ hloan => absurd hloan List.not_mem_nil) (fun _ _ ht => ht) (fun _ ht => ht) ?_
  intro t op stopped hreach ht
  have hrefreshed : t.refreshed.Tied := fun loan hloan => ht loan (mem_refreshed_iff.mp hloan).1
  exact apply_tied hreach.refreshed_disciplined hreach.placed hrefreshed op

/-- A loan that is left when an operation is applied is not overdue. -/
theorem time_left {config : Config} (hs : Reachable config s) (hrun : s.stopped = false) (hschedule : s.OnSchedule rest)
    {loan : Loan} (hloan : loan ∈ s.refreshed.ledger.loans) : s.next ≤ loan.stop ∨ loan.stop = lastIndex := by
  cases hregion : loan.region with
  | span start stop =>
    have hleft := (mem_refreshed_iff.mp hloan).2
    rw [Ledger.expired, hregion] at hleft
    exact Or.inl (by simpa using hleft)
  | scope id =>
    obtain ⟨opened, hscheduled⟩ := hschedule hrun
    have hopen := hs.tied loan (mem_refreshed_iff.mp hloan).1 id hregion
    exact hscheduled.not_overdue hopen

end Session

end BorrowChecker
