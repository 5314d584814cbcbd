import BorrowChecker.Proofs.Reborrow
import BorrowChecker.Proofs.Rehoming

/-!
# The life of a loan

What one step does to the loans, all of it, in terms of the session before the step: which loans end (`Session.ends`),
which change hands (`Session.handedOn`), and which are new (`Session.Admits`). The loans that neither end nor change hands
stay as they are, and all that stay keep their order. The turnover of loans tells the same of an operation that goes
through, after the loans that have run out are gone. That the variables which hold loans are known to do so is what makes
a moved variable hand on every loan it holds.

A loan is numbered above all loans that were ever made, those included that were taken back in the same step. So the
number of a loan that has ended is never seen again.
-/

namespace BorrowChecker

namespace Session

variable {config : Config} {s : Session} {op : Operation} {loan : Loan}

/-! ## Which loans end, change hands and are made -/

/-- Whether the step takes the loan to another holder: it binds the value of the variable that holds it. -/
def handsOn (s : Session) (op : Operation) (loan : Loan) : Bool :=
  match op with
  | .bind _ init _ _ _ => (s.step op).1 == .ok && loan.holder.isVar && s.movedFrom? init == some loan.holder
  | _ => false

/-- Whether the operation ends the loan: the holder gives it back or loses the value, or a scope closes that the loan is
tied to or that its holder or source is declared in. -/
def endedBy (s : Session) (op : Operation) (loan : Loan) : Bool :=
  match op with
  | .release p => (s.step op).1 == .ok && p.isPrefixOf loan.holder
  | .scopeEnd id =>
    s.closes id && (loan.region == .scope id || s.store.decls.any fun decl =>
      decl.live && decl.scope == id && (decl.name == loan.holder.root || decl.name == loan.source.root))
  | _ => (s.step op).1 == .ok && (s.vacated? op).any (·.isPrefixOf loan.holder) && !s.handsOn op loan

/-- Whether the loan is over with the step: its span has run out, or the operation ends it. -/
def ends (s : Session) (op : Operation) (loan : Loan) : Bool := Ledger.expired s.next loan || s.endedBy op loan

/-- The loan after the step, if it has not ended. -/
def handedOn (s : Session) (op : Operation) (loan : Loan) : Loan :=
  match op with
  | .bind target _ _ _ _ => if s.handsOn op loan then { loan with holder := target } else loan
  | _ => loan

/-- The step gives a loan this number, whether or not the loan is taken back. -/
def Issues (s : Session) (op : Operation) (id : LoanId) : Prop :=
  s.stopped = false ∧ ∃ source kind holder region stop ledger,
    op = .borrow source kind holder region ∧ s.refreshed.checkBorrow source kind region = .ok stop ∧
    s.refreshed.ledger.borrow ⟨source, kind, holder, region, stop, s.next⟩ s.config.nesting = .ok (id, ledger)

/-- The loans that the step makes. -/
inductive Admits (s : Session) (op : Operation) : List Loan → Prop where
  | none :
      (∀ source kind holder region, op = .borrow source kind holder region → (s.step op).1 ≠ .ok) → Admits s op []
  /-- A borrow that goes through makes the loan it asks for, with a number above all that were given before. -/
  | borrow {loan : Loan} :
      op = .borrow loan.source loan.kind loan.holder loan.region → (s.step op).1 = .ok → loan.created = s.next →
      (∀ (t : Session) (earlier : Operation) (id : LoanId), t.Issues earlier id →
        Later (fun _ _ => True) (t.step earlier).2 s → id.number < loan.id.number) →
      Admits s op [loan]

/-! ## Fates told before the step -/

theorem not_outlasts_eq (hplaced : s.store.Placed) (id : ScopeId) (loan : Loan) :
    (!s.outlasts id loan) = (loan.region == .scope id || s.store.decls.any fun decl =>
      decl.live && decl.scope == id && (decl.name == loan.holder.root || decl.name == loan.source.root)) := by
  rw [outlasts, Bool.not_and, List.not_all_eq_any_not, dying, List.any_map, Store.liveIn, List.any_reverse, List.any_filter]
  congr 1
  · rw [bne, Bool.not_not]
  · rw [Bool.eq_iff_iff, List.any_eq_true, List.any_eq_true]
    refine exists_congr fun decl => and_congr_right fun hdecl => ?_
    simp only [Function.comp_apply, hplaced decl hdecl, Place.var, Bool.not_and, bne, Bool.not_not]
    rw [Bool.or_comm (decl.name == loan.source.root)]

theorem handedOn_of_not_handsOn (h : s.handsOn op loan = false) : s.handedOn op loan = loan := by
  cases op with
  | bind target init mutable perms facts => rw [handedOn, h, if_neg Bool.false_ne_true]
  | _ => rfl

theorem id_handedOn (s : Session) (op : Operation) (loan : Loan) : (s.handedOn op loan).id = loan.id := by
  cases op with
  | bind target init mutable perms facts =>
    rw [handedOn]
    split <;> rfl
  | _ => rfl

/-- An operation that is turned down ends no loan and hands none on. -/
theorem unaffected_of_rejected (hok : (s.step op).1 ≠ .ok) (hop : ∀ id, op ≠ .scopeEnd id) (loan : Loan) :
    s.endedBy op loan = false ∧ s.handedOn op loan = loan := by
  have hverdict : ((s.step op).1 == .ok) = false := beq_eq_false_iff_ne.mpr hok
  constructor
  · cases op with
    | scopeEnd id => exact absurd rfl (hop id)
    | _ => simp only [endedBy, hverdict, Bool.false_and]
  · refine handedOn_of_not_handsOn ?_
    cases op with
    | bind target init mutable perms facts => simp only [handsOn, hverdict, Bool.false_and]
    | _ => rfl

theorem fate_bind_eq (hs : Reachable config s) (hloan : loan ∈ s.refreshed.ledger.loans) {target : Place} {init : Init}
    {mutable : Bool} {perms : PermSet} {facts : TypeFacts}
    (hok : (s.step (.bind target init mutable perms facts)).1 = .ok) :
    s.refreshed.fate (.bind target init mutable perms facts) loan =
      if s.endedBy (.bind target init mutable perms facts) loan then none
      else some (s.handedOn (.bind target init mutable perms facts) loan) := by
  have hmoved : s.refreshed.movedFrom? init = s.movedFrom? init := rfl
  simp only [fate, hmoved, endedBy, handedOn, handsOn, vacated?, hok, beq_self_eq_true, Bool.true_and]
  cases hinit : s.movedFrom? init with
  | none => simp
  | some p =>
    dsimp only [Option.any_some]
    by_cases hwhole : loan.holder = p ∧ p.isVar = true
    · obtain ⟨rfl, hvar⟩ := hwhole
      have hkind := heldKind?_of_holder (refreshed_holdersKnown hs.holdersKnown) hloan hvar
      simp [hvar, hkind]
    · have hnot : ¬ (loan.holder = p ∧ (s.refreshed.heldKind? p).isSome = true) := fun h =>
        hwhole ⟨h.1, isVar_of_heldKind? h.2⟩
      have hstays : (loan.holder.isVar && some p == some loan.holder) = false := by
        rw [Bool.eq_false_iff]
        intro h
        obtain ⟨hvar, heq⟩ := Bool.and_eq_true_iff.mp h
        obtain rfl : p = loan.holder := Option.some.inj (beq_iff_eq.mp heq)
        exact hwhole ⟨rfl, hvar⟩
      rw [if_neg hnot, hstays, endHeldBy]
      simp

/-- The fate of a loan that has not run out, as the session before the step tells it. -/
theorem fate_eq (hs : Reachable config s) (hrun : s.stopped = false) (heffect : s.refreshed.TakesEffect op)
    (hloan : loan ∈ s.refreshed.ledger.loans) :
    s.refreshed.fate op loan = if s.endedBy op loan then none else some (s.handedOn op loan) := by
  have hok : (∀ id, op ≠ .scopeEnd id) → (s.step op).1 = .ok := fun hop =>
    step_ok hrun (heffect.resolve_right fun ⟨id, hid⟩ => hop id hid)
  cases op with
  | scopeEnd id =>
    have hcloses : s.refreshed.closes id = s.closes id := rfl
    have houtlasts : s.refreshed.outlasts id loan = s.outlasts id loan := rfl
    rw [fate, endedBy, ← not_outlasts_eq hs.placed, hcloses, houtlasts]
    rfl
  | bind target init mutable perms facts => exact fate_bind_eq hs hloan (hok (by simp))
  | copy p =>
    have hfacts : s.refreshed.factsOf p = s.factsOf p := rfl
    cases hdup : (s.factsOf p).duplicable with
    | true => simp [fate, endedBy, hfacts, hdup, vacated?, movedFrom?, handedOn]
    | false => simp [fate, endedBy, hfacts, hdup, vacated?, movedFrom?, handedOn, handsOn, hok, endHeldBy]
  | move p => simp [fate, endedBy, hok, handsOn, handedOn, vacated?, endHeldBy]
  | drop p => simp [fate, endedBy, hok, handsOn, handedOn, vacated?, endHeldBy]
  | release p => simp [fate, endedBy, hok, handedOn, endHeldBy]
  | _ => simp [fate, endedBy, handedOn, vacated?]

/-! ## One step -/

/-- The loans after a step, those that are new apart. -/
theorem loans_step_eq (hs : Reachable config s) (hrun : s.stopped = false) (op : Operation) :
    ∃ new, (s.step op).2.ledger.loans = (s.ledger.loans.filter (!s.ends op ·)).map (s.handedOn op) ++ new ∧
      ((s.refreshed.TakesEffect op ∧ new = s.refreshed.entered op) ∨ ((s.step op).1 ≠ .ok ∧ new = [])) := by
  -- both sides as one pass over the loans before the step
  have hpass : ∀ {f : Loan → Option Loan},
      (∀ loan ∈ s.refreshed.ledger.loans, f loan = if s.endedBy op loan then none else some (s.handedOn op loan)) →
      s.refreshed.ledger.loans.filterMap f = (s.ledger.loans.filter (!s.ends op ·)).map (s.handedOn op) := by
    intro f hf
    rw [List.filterMap_congr hf, loans_refreshed, ← List.filterMap_eq_map, List.filterMap_filter, List.filterMap_filter]
    refine List.filterMap_congr fun loan _ => ?_
    rw [ends]
    cases Ledger.expired s.next loan <;> cases s.endedBy op loan <;> rfl
  rcases loans_step_cases hs hrun op with ⟨heffect, hloans⟩ | ⟨hnot, hloans⟩
  · refine ⟨_, ?_, Or.inl ⟨heffect, rfl⟩⟩
    rw [hloans, hpass fun loan hloan => fate_eq hs hrun heffect hloan]
  · obtain ⟨hfault, hop⟩ := not_or.mp hnot
    have hok : (s.step op).1 ≠ .ok := fun hok => hfault (step_accepted hok).2.1
    refine ⟨[], ?_, Or.inr ⟨hok, rfl⟩⟩
    rw [hloans, List.append_nil, ← hpass (f := some), List.filterMap_some]
    intro loan _
    obtain ⟨hstays, hsame⟩ := unaffected_of_rejected hok (fun id hid => hop ⟨id, hid⟩) loan
    rw [hstays, hsame]
    rfl

/-! ## Numbers -/

/-- A number that has been given is below the next one, even if its loan has been taken back. -/
theorem Issues.lt_nextId {id : LoanId} (h : s.Issues op id) : id.number < (s.step op).2.ledger.nextId := by
  obtain ⟨hrun, source, kind, holder, region, stop, ledger, rfl, hcheck, hlend⟩ := h
  obtain ⟨stopped, hstep⟩ := s.step_running hrun (.borrow source kind holder region)
  have hnext : (s.refreshed.borrow source kind holder region).2.ledger.nextId = ledger.nextId := by
    rcases s.refreshed.borrow_cases source kind holder region with
      ⟨fault, hfault, -⟩ | ⟨stop', hcheck', ⟨e, herror, -⟩ | ⟨id', ledger', hlend', hrest⟩⟩
    · rw [hcheck] at hfault
      exact absurd hfault (by simp)
    · rw [hcheck] at hcheck'
      cases hcheck'
      exact absurd (hlend.symm.trans herror) (by simp)
    · rw [hcheck] at hcheck'
      cases hcheck'
      cases hlend.symm.trans hlend'
      rcases hrest with ⟨fault, -, hborrow⟩ | ⟨t, hprepare, hborrow⟩
      · rw [hborrow]
        rfl
      · rw [hborrow]
        rcases (prepareHolder_cases hprepare).2 with ⟨-, -, rfl⟩ | ⟨-, store, -, rfl⟩ | ⟨-, store, -, rfl⟩
        all_goals rfl
  rw [hstep]
  obtain ⟨-, -, rfl, rfl⟩ := Ledger.borrow_eq_ok_iff.mp hlend
  exact Nat.lt_of_lt_of_eq (Nat.lt_succ_self _) hnext.symm

theorem admits_entered (hrun : s.stopped = false) (heffect : s.refreshed.TakesEffect op) :
    s.Admits op (s.refreshed.entered op) := by
  cases op with
  | borrow source kind holder region =>
    have hnone := heffect.resolve_right (by simp)
    obtain ⟨stop, id, ledger, hcheck, -, -⟩ := borrow_accepted hnone
    have hstop : s.refreshed.regionStop? region = some stop := (checkBorrow_eq_ok_iff.mp hcheck).1
    rw [entered, hstop]
    refine .borrow rfl (step_ok hrun hnone) rfl fun t earlier id hissues hlater => ?_
    exact hlater.issued hissues.lt_nextId
  | _ => exact .none (by simp)

/-- A loan that a step ends is not live after it. -/
theorem not_lives_of_ends (hs : Reachable config s) (hrun : s.stopped = false) (hloan : loan ∈ s.ledger.loans)
    (hends : s.ends op loan = true) : ¬ (s.step op).2.ledger.Lives loan.id := by
  have hledger : s.ledger.Disciplined := hs.sound.disciplined
  obtain ⟨new, hloans, hnew⟩ := loans_step_eq hs hrun op
  rw [Ledger.lives_iff, hloans]
  rintro ⟨other, hother, hid⟩
  rcases List.mem_append.mp hother with hkept | hentered
  · obtain ⟨old, hold, rfl⟩ := List.mem_map.mp hkept
    obtain ⟨hmem, hstays⟩ := List.mem_filter.mp hold
    rw [id_handedOn] at hid
    rw [hledger.eq_of_id_eq hmem hloan hid, hends] at hstays
    exact Bool.noConfusion hstays
  · rcases hnew with ⟨-, rfl⟩ | ⟨-, rfl⟩
    · have hlt := hledger.bounded loan hloan
      rw [← hid, id_of_mem_entered hentered, nextId_refreshed] at hlt
      exact absurd hlt (Nat.lt_irrefl _)
    · exact absurd hentered List.not_mem_nil

/-! ## The life cycle -/

/-- **The life cycle of loans.** A step removes the loans that end, hands some on, keeps all others as they are and in
order, and adds at most one, at the end of the list. A loan that has ended never comes back. -/
theorem loan_life_cycle (hs : Reachable config s) (hrun : s.stopped = false) (op : Operation) :
    (∃ new, s.Admits op new ∧
      (s.step op).2.ledger.loans = (s.ledger.loans.filter (!s.ends op ·)).map (s.handedOn op) ++ new) ∧
    ∀ loan ∈ s.ledger.loans, s.ends op loan = true →
      ∀ t, Later (fun _ _ => True) (s.step op).2 t → ¬ t.ledger.Lives loan.id := by
  constructor
  · obtain ⟨new, hloans, ⟨heffect, rfl⟩ | ⟨hok, rfl⟩⟩ := loans_step_eq hs hrun op
    · exact ⟨_, admits_entered hrun heffect, hloans⟩
    · exact ⟨[], .none fun _ _ _ _ _ => hok, hloans⟩
  · intro loan hloan hends t hlater
    have hissued : loan.id.number < (s.step op).2.ledger.nextId := issued_step (hs.sound.disciplined.bounded loan hloan) op
    have hended : (s.step op).2.registry.Ended loan.id := ⟨hissued, not_lives_of_ends hs hrun hloan hends⟩
    exact (hlater.ended hended).2

/-- A variable moves with the loan it holds, while the span of another loan has run out and a third loan stays. -/
theorem moved_reference_among_loans :
    let s := (({} : Session).stepAll [.bindFreshMut (.var ⟨0⟩), .borrowShared (.var ⟨0⟩) (.var ⟨1⟩) (.span 1 3),
      .borrowShared (.var ⟨0⟩) (.var ⟨2⟩) (.scope .root), .borrowShared (.var ⟨0⟩) (.var ⟨3⟩) (.scope .root)]).2
    let op := Operation.bindMove (.var ⟨4⟩) (.var ⟨2⟩)
    s.stopped = false ∧ (s.step op).1 = .ok ∧
    s.ledger.loans.map (s.ends op) = [true, false, false] ∧
    s.ledger.loans.map (fun loan => (s.handedOn op loan).holder) = [.var ⟨1⟩, .var ⟨4⟩, .var ⟨3⟩] ∧
    (∃ new, s.Admits op new ∧
      (s.step op).2.ledger.loans = (s.ledger.loans.filter (!s.ends op ·)).map (s.handedOn op) ++ new) ∧
    ∀ t, Later (fun _ _ => True) (s.step op).2 t → ¬ t.ledger.Lives ⟨0⟩ := by
  intro s op
  have hs : Reachable {} s := (Reachable.start {}).stepAll _
  have hrun : s.stopped = false := by decide
  have hexpiring : ∃ loan ∈ s.ledger.loans, loan.id = ⟨0⟩ ∧ s.ends op loan = true := by decide
  obtain ⟨loan, hloan, hid, hends⟩ := hexpiring
  obtain ⟨hchange, hgone⟩ := loan_life_cycle hs hrun op
  exact ⟨hrun, by decide, by decide, by decide, hchange, hid ▸ hgone loan hloan hends⟩

end Session

end BorrowChecker
