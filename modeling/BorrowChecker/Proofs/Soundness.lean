import BorrowChecker.Proofs.Retirement
import Mathlib.Data.List.Pairwise

/-!
# Soundness of the registry

The two promises of the checker about loans, as one invariant of the registry: the ledger is disciplined, so that
loans on overlapping storage are all shared, and the source of every loan is live, so that no loan outlives what it
lends. Each small change keeps the invariant.
-/

namespace BorrowChecker

namespace Registry

structure Sound (r : Registry) : Prop where
  disciplined : r.ledger.Disciplined
  grounded : ∀ loan ∈ r.ledger.loans, r.store.Live loan.source

theorem sound_empty : ({} : Registry).Sound :=
  ⟨Ledger.disciplined_empty, fun _ h => absurd h List.not_mem_nil⟩

theorem Change.sound {declared : Place → Prop} {r r' : Registry} (hchange : Change declared r r') (h : r.Sound) :
    r'.Sound := by
  refine ⟨hchange.disciplined h.disciplined, ?_⟩
  cases hchange with
  | declare _ hstore => exact fun loan hloan => Store.live_of_declare hstore (h.grounded loan hloan)
  | describe hstore =>
    obtain ⟨-, rfl⟩ := Store.registerFacts_eq_ok_iff.mp hstore
    exact fun loan hloan => (Store.live_congr (fun _ => Store.alive_setFacts) rfl).mpr (h.grounded loan hloan)
  | assign hstore =>
    have halive := fun x => Store.alive_assignHolder (x := x) hstore
    have hlive := fun p => Store.live_congr (p := p) halive (Store.retired_of_assignHolder hstore)
    exact fun loan hloan => (hlive _).mpr (h.grounded loan hloan)
  | retire hsub hfree =>
    -- nothing that is still lent overlaps the place, so no source dies
    intro loan hloan
    refine Store.live_retire_iff.mpr ⟨h.grounded loan (hsub.subset hloan), ?_⟩
    rw [Place.overlaps_comm]
    exact hfree h.disciplined loan hloan
  | lend hlive hledger =>
    intro loan hloan
    obtain ⟨-, -, rfl, rfl⟩ := Ledger.borrow_eq_ok_iff.mp hledger
    rcases List.mem_append.mp hloan with hloan | hloan
    · exact h.grounded loan hloan
    · rw [List.mem_singleton.mp hloan]
      exact hlive
  | depart hsub => exact fun loan hloan => h.grounded loan (hsub.subset hloan)
  | rehome source target =>
    intro loan hloan
    obtain ⟨old, hold, holder, rfl⟩ := Ledger.exists_of_mem_transfer hloan
    exact h.grounded old hold
  | enter | cut => exact h.grounded

end Registry

namespace Session

theorem Reachable.sound {config : Config} {s : Session} (h : Reachable config s) : s.registry.Sound :=
  Later.invariant (fun _ _ _ _ _ hchange => hchange.sound) h Registry.sound_empty

/-! ## Mutual exclusion -/

/-- **Mutual exclusion.** In every reachable session, live loans have different numbers, and two of them lend overlapping
storage only if both are shared. -/
theorem live_loans_mutually_exclusive {config : Config} {s : Session} (h : Reachable config s) :
    (s.ledger.loans.map (·.id)).Nodup ∧
    ∀ a ∈ s.ledger.loans, ∀ b ∈ s.ledger.loans, a ≠ b → a.source.overlaps b.source = true →
      a.kind = .shared ∧ b.kind = .shared := by
  have hledger : s.ledger.Disciplined := h.sound.disciplined
  -- compatibility does not depend on which of the two loans is older
  have hsymm : Std.Symm fun a b : Loan => a.source.overlaps b.source = true → a.kind.compatible b.kind = true := by
    refine ⟨fun a b hab hoverlap => ?_⟩
    rw [Place.overlaps_comm] at hoverlap
    rw [BorrowKind.compatible, Bool.and_comm]
    exact hab hoverlap
  refine ⟨hledger.nodup_ids, fun a ha b hb hne hoverlap => ?_⟩
  exact BorrowKind.compatible_iff.mp (hledger.compatible.forall ha hb hne hoverlap)

theorem shared_loans_of_whole_and_part :
    let s := (({} : Session).run [.bindFreshMut (.var ⟨0⟩), .borrowShared (.var ⟨0⟩) (.var ⟨1⟩) (.scope .root),
      .borrowShared ⟨⟨0⟩, [.field ⟨2⟩]⟩ (.var ⟨3⟩) (.scope .root)]).2
    s.ledger.loans.map (·.source) = [.var ⟨0⟩, ⟨⟨0⟩, [.field ⟨2⟩]⟩] ∧
    (s.ledger.loans.map (·.id)).Nodup ∧
    ∀ a ∈ s.ledger.loans, ∀ b ∈ s.ledger.loans, a ≠ b → a.source.overlaps b.source = true →
      a.kind = .shared ∧ b.kind = .shared :=
  ⟨by decide, live_loans_mutually_exclusive ((Reachable.start {}).run _)⟩

/-! ## Referents -/

/-- The step takes `p` out of being: it withdraws the value of `p`, moves it into a binding, or closes the scope that the
variable `p` belongs to, whether or not that is a fault. -/
inductive Retires (s : Session) : Operation → Place → Prop where
  | withdraw {op : Operation} {p : Place} : s.Withdraws p op → (s.step op).1 = .ok → Retires s op p
  | bind {target : Place} {init : Init} {mutable : Bool} {perms : PermSet} {facts : TypeFacts} {p : Place} :
      init = .move p ∨ (init = .copy p ∧ (s.factsOf p).duplicable = false) →
      (s.step (.bind target init mutable perms facts)).1 = .ok →
      Retires s (.bind target init mutable perms facts) p
  | scopeEnd {id : ScopeId} {decl : Declaration} :
      s.stopped = false → s.currentScope = id → id ≠ .root → decl ∈ s.store.liveIn id →
      Retires s (.scopeEnd id) decl.place

theorem Retires.vacant {s : Session} {op : Operation} {p : Place} (h : s.Retires op p) :
    (s.step op).2.store.Vacant p := by
  cases h with
  | withdraw hop hok =>
    rw [store_step_withdraws hop hok]
    exact Store.vacant_retire
  | @bind target init mutable perms facts p hinit hok =>
    obtain ⟨-, hnone, hstep⟩ := step_accepted hok
    rw [hstep]
    rcases s.refreshed.bind_cases target init mutable perms facts with
      ⟨fault, -, hbind⟩ | ⟨source, e, -, -, hbind⟩ | ⟨source, store, hcheck, -, hbind⟩
    · rw [apply, hbind] at hnone
      exact absurd hnone (by simp)
    · rw [apply, hbind] at hnone
      exact absurd hnone (by simp)
    · obtain rfl : source = some p := checkInit_moved (s := s.refreshed) hinit hcheck
      rw [apply, hbind]
      change (Registry.relocate _ p target _).store.Vacant p
      rw [Registry.store_relocate]
      exact Store.vacant_retire
  | @scopeEnd id decl hrun hinnermost hid hdecl =>
    have hclosed : (s.refreshed.apply (.scopeEnd id)).2.store.Vacant decl.place := by
      rcases s.refreshed.endScope_cases id with ⟨hunbalanced, -⟩ | ⟨-, -, hend⟩
      · exact (hunbalanced.elim hid fun hother => hother hinnermost).elim
      · rw [apply, hend]
        exact Registry.vacant_buryAll _ _ (Or.inl (List.mem_map_of_mem hdecl))
    rcases s.step_cases hrun (.scopeEnd id) with ⟨-, hstep⟩ | ⟨fault, -, hstep⟩
    · rw [hstep]
      exact hclosed
    · rw [hstep]
      exact hclosed

/-- **No loan outlives what it lends.** In every reachable session the source of every live loan is live, and no loan is
left on a place that a step takes out of being. -/
theorem loans_never_outlive_referents {config : Config} {s : Session} (h : Reachable config s) :
    (∀ loan ∈ s.ledger.loans, (s.store.checkLive loan.source).isOk = true) ∧
    ∀ op p, s.Retires op p → ∀ loan ∈ (s.step op).2.ledger.loans, p.overlaps loan.source = false := by
  refine ⟨h.sound.grounded, fun op p hretires loan hloan => ?_⟩
  have hlive := (h.step op).sound.grounded loan hloan
  rw [Bool.eq_false_iff]
  exact fun hoverlap => hretires.vacant.not_live hoverlap hlive

/-- A loan on a variable of an inner scope, to a holder outside, is gone once the scope is closed. -/
theorem loan_ends_with_scope_of_source :
    let s := (({} : Session).stepAll [.bindFreshMut (.var ⟨0⟩), .scopeBegin ⟨1⟩, .bindFresh (.var ⟨1⟩),
      .borrowShared (.var ⟨1⟩) (.var ⟨0⟩) (.scope .root)]).2
    s.ledger.loans.map (·.source) = [.var ⟨1⟩] ∧
    (∀ loan ∈ s.ledger.loans, (s.store.checkLive loan.source).isOk = true) ∧
    ∀ loan ∈ (s.step (.scopeEnd ⟨1⟩)).2.ledger.loans, (Place.var ⟨1⟩).overlaps loan.source = false := by
  intro s
  have hdying : ∃ decl ∈ s.store.liveIn ⟨1⟩, decl.place = .var ⟨1⟩ := by decide
  obtain ⟨decl, hdecl, hplace⟩ := hdying
  have hretires : s.Retires (.scopeEnd ⟨1⟩) (.var ⟨1⟩) :=
    hplace ▸ .scopeEnd (by decide) (by decide) (by decide) hdecl
  have hloans := loans_never_outlive_referents ((Reachable.start {}).stepAll _ : Reachable {} s)
  exact ⟨by decide, hloans.1, hloans.2 _ _ hretires⟩

end Session

end BorrowChecker
