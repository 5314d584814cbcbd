import BorrowChecker.Proofs.Outcome

/-!
# What operations see of the settings

A session carries two things that no operation changes: its configuration, and what it knows of the ends of scopes.
Operations hardly look at them. Opening a scope looks up where the scope is going to close, a borrow asks how reborrows
have to nest, and the mode says what follows a violation and nothing else. So two sessions that differ in their settings
find the same faults, and stay alike, as long as no operation looks at what is different (`apply_withSettings`).
-/

namespace BorrowChecker

namespace Session

variable {s : Session} {config : Config} {pairs : List (Nat × Nat)} {op : Operation}

/-- The session with another configuration, and with other knowledge of the ends of scopes. -/
def withSettings (s : Session) (config : Config) (pairs : List (Nat × Nat)) : Session := { s with config, pairs }

/-- Under the other settings the operation sees what it would see under its own. -/
def Overlooks (s : Session) (config : Config) (pairs : List (Nat × Nat)) : Operation → Prop
  | .scopeBegin _ => pairs.lookup s.next = s.pairs.lookup s.next
  | .borrow _ _ _ _ => config.nesting = s.config.nesting
  | _ => True

/-! ## Operations -/

theorem guarded_withSettings {α : Type} (check : Except Fault α) (change : α → Registry) :
    (s.withSettings config pairs).guarded check change =
      ((s.guarded check change).1, (s.guarded check change).2.withSettings config pairs) := by
  cases check <;> rfl

theorem beginScope_withSettings (hpairs : pairs.lookup s.next = s.pairs.lookup s.next) (id : ScopeId) :
    (s.withSettings config pairs).beginScope id =
      ((s.beginScope id).1, (s.beginScope id).2.withSettings config pairs) := by
  simp only [beginScope, withSettings, hpairs]
  split <;> rfl

theorem endScope_withSettings (id : ScopeId) :
    (s.withSettings config pairs).endScope id = ((s.endScope id).1, (s.endScope id).2.withSettings config pairs) := by
  have hscopes : (s.withSettings config pairs).scopes = s.scopes := rfl
  rw [endScope, endScope, hscopes]
  cases s.scopes with
  | nil => rfl
  | cons innermost outer =>
    dsimp only
    split <;> rfl

theorem bind_withSettings (target : Place) (init : Init) (mutable : Bool) (perms : PermSet) (facts : TypeFacts) :
    (s.withSettings config pairs).bind target init mutable perms facts =
      ((s.bind target init mutable perms facts).1,
        (s.bind target init mutable perms facts).2.withSettings config pairs) := by
  have hinit : (s.withSettings config pairs).checkInit init = s.checkInit init := by cases init <;> rfl
  have hregistry : (s.withSettings config pairs).registry = s.registry := rfl
  have hrequest : (s.withSettings config pairs).bindRequest = s.bindRequest := rfl
  have hheld : (s.withSettings config pairs).heldKind? = s.heldKind? := rfl
  rw [bind, bind, hinit, hregistry, hrequest, hheld]
  cases s.checkInit init with
  | error fault => rfl
  | ok source =>
    dsimp only
    rcases s.registry.declare target (s.bindRequest (source.bind s.heldKind?) mutable perms facts) with ⟨_ | _, r⟩
    · rfl
    · rfl

theorem ensureHolder_withSettings (holder : Place) (kind : BorrowKind) :
    (s.withSettings config pairs).ensureHolder holder kind =
      (s.ensureHolder holder kind).withSettings config pairs := by
  have hlive : (s.withSettings config pairs).rootLive holder = s.rootLive holder := rfl
  rw [ensureHolder, ensureHolder, hlive]
  split <;> rfl

theorem prepareHolder_withSettings (holder : Place) (kind : BorrowKind) (id : LoanId) :
    (s.withSettings config pairs).prepareHolder holder kind id =
      (s.prepareHolder holder kind id).map (·.withSettings config pairs) := by
  have hledger : (s.withSettings config pairs).ledger = s.ledger := rfl
  have haccess : (s.withSettings config pairs).checkAccess holder .write = s.checkAccess holder .write := rfl
  have hlive : (s.withSettings config pairs).rootLive holder = s.rootLive holder := rfl
  have hregistry : (s.withSettings config pairs).registry = s.registry := rfl
  have hdeclare : (s.withSettings config pairs).declareHolder holder kind =
      ((s.declareHolder holder kind).1, (s.declareHolder holder kind).2.withSettings config pairs) := rfl
  rw [prepareHolder, prepareHolder, hledger, haccess, hlive, hregistry, hdeclare]
  split
  · rfl
  · split
    · cases s.checkAccess holder .write <;> rfl
    · split
      · rcases s.registry.assignHolder holder.root kind with ⟨_ | _, r⟩ <;> rfl
      · rcases s.declareHolder holder kind with ⟨_ | _, t⟩ <;> rfl

theorem checkBorrow_withSettings (source : Place) (kind : BorrowKind) (region : Region) :
    (s.withSettings config pairs).checkBorrow source kind region = s.checkBorrow source kind region := by
  cases region <;> rfl

/-- A borrow meets the nesting in one question to the ledger, so two nestings are the same to it if they get the same
answer there. -/
theorem borrow_withSettings {source holder : Place} {kind : BorrowKind} {region : Region}
    (hlend : ∀ stop, s.checkBorrow source kind region = .ok stop →
      s.ledger.borrow ⟨source, kind, holder, region, stop, s.next⟩ config.nesting =
        s.ledger.borrow ⟨source, kind, holder, region, stop, s.next⟩ s.config.nesting) :
    (s.withSettings config pairs).borrow source kind holder region =
      ((s.borrow source kind holder region).1, (s.borrow source kind holder region).2.withSettings config pairs) := by
  have hregistry : (s.withSettings config pairs).registry = s.registry := rfl
  have hnext : (s.withSettings config pairs).next = s.next := rfl
  have hnesting : (s.withSettings config pairs).config.nesting = config.nesting := rfl
  rw [borrow, borrow, checkBorrow_withSettings, hregistry, hnext, hnesting]
  cases hcheck : s.checkBorrow source kind region with
  | error fault => simp only [ensureHolder_withSettings]
  | ok stop =>
    have hlent : s.registry.borrow ⟨source, kind, holder, region, stop, s.next⟩ config.nesting =
        s.registry.borrow ⟨source, kind, holder, region, stop, s.next⟩ s.config.nesting := by
      have hsame := hlend stop hcheck
      simp only [Registry.borrow, Registry.enter, ledger] at hsame ⊢
      rw [hsame]
    dsimp only
    rw [hlent]
    rcases s.registry.borrow ⟨source, kind, holder, region, stop, s.next⟩ s.config.nesting with ⟨e | id, r⟩
    · exact congrArg (Prod.mk _) (ensureHolder_withSettings (s := { s with registry := r }) holder kind)
    · -- the reference is stored, or the loan taken back, in the session that has the loan
      have hprepare : (({ s with registry := r } : Session).withSettings config pairs).prepareHolder holder kind id = _ :=
        prepareHolder_withSettings holder kind id
      dsimp only [withSettings] at hprepare ⊢
      rw [hprepare]
      cases ({ s with registry := r } : Session).prepareHolder holder kind id <;> rfl

theorem apply_withSettings (h : s.Overlooks config pairs op) :
    (s.withSettings config pairs).apply op = ((s.apply op).1, (s.apply op).2.withSettings config pairs) := by
  cases op with
  | scopeBegin id => exact beginScope_withSettings h id
  | scopeEnd id => exact endScope_withSettings id
  | bind target init mutable perms facts => exact bind_withSettings target init mutable perms facts
  | borrow source kind holder region =>
    refine borrow_withSettings fun stop _ => ?_
    rw [show config.nesting = s.config.nesting from h]
  | unchecked p => rfl
  | project | move | copy | mutate | access | drop | release | split => exact guarded_withSettings _ _

/-! ## Steps -/

/-- Whatever the settings, the next operation leaves the two sessions alike. -/
def Parallel (s : Session) (config : Config) (pairs : List (Nat × Nat)) (op : Operation) : Prop :=
  (s.withSettings config pairs).refreshed.apply op =
    ((s.refreshed.apply op).1, (s.refreshed.apply op).2.withSettings config pairs)

theorem Overlooks.parallel (h : s.Overlooks config pairs op) : s.Parallel config pairs op := by
  have hrefreshed : s.refreshed.Overlooks config pairs op := by cases op <;> exact h
  exact apply_withSettings hrefreshed

theorem Parallel.verdict_eq (h : s.Parallel config pairs op) :
    ((s.withSettings config pairs).step op).1 = (s.step op).1 := by
  have hstopped : (s.withSettings config pairs).stopped = s.stopped := rfl
  rw [Parallel] at h
  cases hstop : s.stopped with
  | true => rw [step_of_stopped hstop, step_of_stopped (hstopped.trans hstop)]
  | false =>
    rcases s.step_cases hstop op with ⟨hnone, hstep⟩ | ⟨fault, hfault, hstep⟩
    · rw [hstep, step_ok (hstopped.trans hstop)]
      rw [h, hnone]
    · rcases (s.withSettings config pairs).step_cases (hstopped.trans hstop) op with ⟨hnone, -⟩ | ⟨fault', hfault', hstep'⟩
      · rw [h, hfault] at hnone
        exact absurd hnone (by simp)
      · rw [h, hfault] at hfault'
        cases hfault'
        rw [hstep, hstep']
        rfl

/-- The sessions stay alike, unless a violation stops only one of them. -/
theorem Parallel.step_eq (h : s.Parallel config pairs op)
    (hmode : config.mode = s.config.mode ∨ (s.step op).1.isOk = true) :
    ((s.withSettings config pairs).step op).2 = (s.step op).2.withSettings config pairs := by
  have hverdict := h.verdict_eq
  rw [Parallel] at h
  cases hstop : s.stopped with
  | true =>
    have hstop' : (s.withSettings config pairs).stopped = true := hstop
    rw [step_of_stopped hstop, step_of_stopped hstop']
    rfl
  | false =>
    rcases s.step_cases hstop op with ⟨-, hstep⟩ | ⟨fault, -, hstep⟩
    · have hok : (s.step op).1 = .ok := by rw [hstep]
      rw [(step_accepted (hverdict.trans hok)).2.2, (step_accepted hok).2.2, h]
      rfl
    · have hv : (s.step op).1 = .violation { fault with index := s.next } := by rw [hstep]
      rw [hv] at hmode
      have hmode : config.mode = s.config.mode := hmode.resolve_right (by simp [Verdict.isOk, Verdict.violation?])
      have hstops : ∀ f, (s.withSettings config pairs).stopsOn f = s.stopsOn f := by
        intro f
        simp only [stopsOn, withSettings, hmode]
      rw [(step_rejected (hverdict.trans hv)).2.2, (step_rejected hv).2.2, h, hstops]
      rfl

/-- No step changes the settings: a session is parallel to itself. -/
theorem settings_step (s : Session) (op : Operation) :
    (s.step op).2.config = s.config ∧ (s.step op).2.pairs = s.pairs := by
  have hown : s.Overlooks s.config s.pairs op := by
    cases op with
    | scopeBegin | borrow => rfl
    | _ => trivial
  have hstep : (s.step op).2 = (s.step op).2.withSettings s.config s.pairs := hown.parallel.step_eq (Or.inl rfl)
  rw [hstep]
  exact ⟨rfl, rfl⟩

theorem settings_stepAll (s : Session) (ops : List Operation) :
    (s.stepAll ops).2.config = s.config ∧ (s.stepAll ops).2.pairs = s.pairs := by
  induction ops generalizing s with
  | nil => exact ⟨rfl, rfl⟩
  | cons op ops ih =>
    obtain ⟨hconfig, hpairs⟩ := ih (s.step op).2
    obtain ⟨hconfig', hpairs'⟩ := s.settings_step op
    exact ⟨hconfig.trans hconfig', hpairs.trans hpairs'⟩

end Session

end BorrowChecker
