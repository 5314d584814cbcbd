import BorrowChecker.Proofs.Reborrow
import BorrowChecker.Proofs.Settings

/-!
# Strict and lenient nesting

A session that lets a reborrow end together with the loan it goes through goes the way of a strict one, up to the first
borrow that would end exactly together with such a loan. The ledger is the only one to look at the nesting, and it gives
two answers only in that case (`Ledger.borrow_strict_cases`). The strict answer is then a fault that no other check of a
borrow finds, so the two verdicts are different as well (`step_lenient`).
-/

namespace BorrowChecker

/-! ## The ledger -/

namespace Ledger

variable {ledger : Ledger} {request : LoanRequest}

/-- The two nestings get the same answer, unless the oldest loan that stands in the way of strict nesting ends together
with the loan that is asked for. -/
theorem borrow_strict_cases (ledger : Ledger) (request : LoanRequest) :
    ledger.borrow request .strict = ledger.borrow request .allowEqual ∨
    ∃ parent ∈ ledger.parents request.source, parent.stop = request.stop ∧
      ledger.borrow request .strict = .error (.outlives parent) := by
  rw [borrow, borrow]
  cases ledger.obstacle? request.source request.kind with
  | some existing => exact Or.inl rfl
  | none =>
    dsimp only
    cases hstrict : (ledger.parents request.source).find? (!Nesting.strict.nests request.stop ·.stop) with
    | none =>
      -- what nests strictly nests
      have hlenient : (ledger.parents request.source).find? (!Nesting.allowEqual.nests request.stop ·.stop) = none := by
        refine List.find?_eq_none.mpr fun loan hloan => ?_
        have hnests := List.find?_eq_none.mp hstrict loan hloan
        simp only [Nesting.nests, Bool.not_eq_true', decide_eq_false_iff_not, not_not] at hnests ⊢
        omega
      rw [hlenient]
      exact Or.inl rfl
    | some parent =>
      obtain ⟨hfails, older, younger, hparents, holder⟩ := List.find?_eq_some_iff_append.mp hstrict
      by_cases heq : parent.stop = request.stop
      · exact Or.inr ⟨parent, List.mem_of_find?_eq_some hstrict, heq, rfl⟩
      · -- a loan that ends earlier stands in the way of both, and none before it stands in the way of either
        have hlenient : (ledger.parents request.source).find? (!Nesting.allowEqual.nests request.stop ·.stop) =
            some parent := by
          refine List.find?_eq_some_iff_append.mpr ⟨?_, older, younger, hparents, fun loan hloan => ?_⟩
          · simp only [Nesting.nests, Bool.not_eq_true', decide_eq_false_iff_not] at hfails ⊢
            omega
          · have hnests := holder loan hloan
            simp only [Nesting.nests, Bool.not_not, decide_eq_true_eq] at hnests ⊢
            omega
        rw [hlenient]
        exact Or.inl rfl

end Ledger

namespace Session

variable {config : Config} {s : Session} {op : Operation} {source holder : Place} {kind : BorrowKind} {region : Region}
  {fault : Fault}

/-! ## Faults of a borrow -/

theorem kind_of_prepareHolder {id : LoanId} (h : s.prepareHolder holder kind id = .error fault) :
    fault.kind ≠ .loanOutlivesSource := by
  rcases prepareHolder_eq_error h with ⟨loan, -, -, rfl⟩ | ⟨-, ⟨e, rfl⟩ | rfl⟩
  · exact ViolationKind.noConfusion
  · exact fun hkind => Bool.noConfusion ((congrArg ViolationKind.isConflict hkind).symm.trans e.isConflict_violationKind)
  · exact ViolationKind.noConfusion

/-- A borrow that is refused by the ledger is reported with the loan that stands in its way. -/
theorem borrow_of_refused {stop : Nat} {e : LoanError} (hcheck : s.checkBorrow source kind region = .ok stop)
    (hlend : s.ledger.borrow ⟨source, kind, holder, region, stop, s.next⟩ s.config.nesting = .error e) :
    (s.borrow source kind holder region).1 = some (e.fault source) := by
  rcases s.borrow_cases source kind holder region with
    ⟨fault, hfault, -⟩ | ⟨stop', hcheck', ⟨e', hlend', hborrow⟩ | ⟨id, ledger, hlend', -⟩⟩
  · exact absurd (hcheck.symm.trans hfault) (by simp)
  · cases hcheck.symm.trans hcheck'
    cases hlend.symm.trans hlend'
    rw [hborrow]
  · cases hcheck.symm.trans hcheck'
    exact absurd (hlend.symm.trans hlend') (by simp)

/-- No borrow is said to outlive a loan that it nests in. -/
theorem borrow_ne_of_nests (hledger : s.ledger.Disciplined) {stop : Nat} {parent : Loan}
    (hcheck : s.checkBorrow source kind region = .ok stop) (hparent : parent ∈ s.ledger.loans)
    (hnests : s.config.nesting.nests stop parent.stop = true) :
    (s.borrow source kind holder region).1 ≠ some (.about .loanOutlivesSource source (some parent)) := by
  intro hborrow
  rcases s.borrow_cases source kind holder region with
    ⟨fault, hfault, -⟩ | ⟨stop', hcheck', ⟨e, hlend, hrefused⟩ | ⟨id, ledger, -, hrest⟩⟩
  · exact absurd (hcheck.symm.trans hfault) (by simp)
  · cases hcheck.symm.trans hcheck'
    rw [hrefused] at hborrow
    have hfault : e.fault source = .about .loanOutlivesSource source (some parent) := Option.some.inj hborrow
    cases e with
    | conflicting existing =>
      have hkind := congrArg Fault.kind hfault
      simp [LoanError.fault, LoanError.violationKind, Fault.about] at hkind
    | outlives other =>
      -- the loan that is named is known by its number
      have hid : other.id = parent.id := congrArg (fun f : Fault => f.loan.elim other.id (·.id)) hfault
      rcases Ledger.borrow_eq_error hlend with ⟨_, -, hother⟩ | ⟨_, hmem, hfails, hother⟩
      · exact LoanError.noConfusion hother
      · cases hother
        rw [hledger.eq_of_id_eq (Ledger.mem_parents.mp hmem).1 hparent hid, hnests] at hfails
        exact Bool.noConfusion hfails
  · rcases hrest with ⟨fault, hprepare, hfailed⟩ | ⟨t, -, hok⟩
    · rw [hfailed] at hborrow
      exact kind_of_prepareHolder hprepare (congrArg Fault.kind (Option.some.inj hborrow))
    · rw [hok] at hborrow
      exact absurd hborrow (by simp)

/-! ## Steps -/

/-- The session under lenient nesting. -/
def lenient (s : Session) : Session := s.withSettings { s.config with nesting := .allowEqual } s.pairs

/-- The operation is a borrow that is turned down because it would end together with a loan it goes through. -/
inductive MeetsEqualEnd (s : Session) : Operation → Prop where
  | borrow {source holder : Place} {kind : BorrowKind} {region : Region} {stop : Nat} {parent : Loan} :
      s.regionStop? region = some stop → parent ∈ s.refreshed.ledger.parents source → parent.stop = stop →
      (s.step (.borrow source kind holder region)).1 =
        .violation { Fault.about .loanOutlivesSource source (some parent) with index := s.next } →
      MeetsEqualEnd s (.borrow source kind holder region)

theorem Parallel.step_lenient (h : s.Parallel { s.config with nesting := .allowEqual } s.pairs op) :
    s.lenient.step op = ((s.step op).1, (s.step op).2.lenient) := by
  obtain ⟨hconfig, hpairs⟩ := s.settings_step op
  refine Prod.ext h.verdict_eq ?_
  rw [lenient, h.step_eq (Or.inl rfl), lenient, hconfig, hpairs]

theorem meetsEqualEnd_of_refused (hs : Reachable config s) (hrun : s.stopped = false) (hstrict : s.config.nesting = .strict)
    {stop : Nat} {parent : Loan} (hcheck : s.refreshed.checkBorrow source kind region = .ok stop)
    (hparent : parent ∈ s.refreshed.ledger.parents source) (hstop : parent.stop = stop)
    (hlend : s.refreshed.ledger.borrow ⟨source, kind, holder, region, stop, s.next⟩ .strict = .error (.outlives parent)) :
    s.MeetsEqualEnd (.borrow source kind holder region) ∧
      (s.lenient.step (.borrow source kind holder region)).1 ≠ (s.step (.borrow source kind holder region)).1 := by
  have hfault : (s.refreshed.borrow source kind holder region).1 = some (LoanError.fault (.outlives parent) source) := by
    refine borrow_of_refused hcheck ?_
    rw [show s.refreshed.config.nesting = .strict from hstrict]
    exact hlend
  have hverdict : (s.step (.borrow source kind holder region)).1 =
      .violation { Fault.about .loanOutlivesSource source (some parent) with index := s.next } := by
    rcases s.step_cases hrun (.borrow source kind holder region) with ⟨hnone, -⟩ | ⟨fault, hfault', hstep⟩
    · exact absurd (hfault.symm.trans hnone) (by simp)
    · rw [hstep, Option.some.inj (hfault'.symm.trans hfault)]
      rfl
  refine ⟨.borrow (checkBorrow_eq_ok_iff.mp hcheck).1 hparent hstop hverdict, fun hsame => ?_⟩
  have hlenient : (s.lenient.refreshed.borrow source kind holder region).1 =
      some (.about .loanOutlivesSource source (some parent)) := (step_rejected (hsame.trans hverdict)).2.1
  have hledger : s.lenient.refreshed.ledger.Disciplined := hs.refreshed_disciplined
  have hcheck' : s.lenient.refreshed.checkBorrow source kind region = .ok stop :=
    (s.refreshed.checkBorrow_withSettings source kind region).trans hcheck
  have hnests : s.lenient.refreshed.config.nesting.nests stop parent.stop = true :=
    decide_eq_true (Nat.le_of_eq hstop.symm)
  exact borrow_ne_of_nests hledger hcheck' (Ledger.mem_parents.mp hparent).1 hnests hlenient

/-- A strict session and a lenient one give the same verdict and stay alike, or the operation is a borrow that would end
together with a loan it goes through, and the verdicts are different. -/
theorem step_lenient (hs : Reachable config s) (hstrict : s.config.nesting = .strict) (op : Operation) :
    s.lenient.step op = ((s.step op).1, (s.step op).2.lenient) ∨
      (s.MeetsEqualEnd op ∧ (s.lenient.step op).1 ≠ (s.step op).1) := by
  cases hrun : s.stopped with
  | true =>
    have hrun' : s.lenient.stopped = true := hrun
    rw [step_of_stopped hrun, step_of_stopped hrun']
    exact Or.inl rfl
  | false =>
    by_cases hborrow : ∃ source kind holder region, op = .borrow source kind holder region
    · obtain ⟨source, kind, holder, region, rfl⟩ := hborrow
      by_cases hmeets : ∃ stop, s.refreshed.checkBorrow source kind region = .ok stop ∧
          s.refreshed.ledger.borrow ⟨source, kind, holder, region, stop, s.next⟩ .allowEqual ≠
            s.refreshed.ledger.borrow ⟨source, kind, holder, region, stop, s.next⟩ .strict
      · obtain ⟨stop, hcheck, hne⟩ := hmeets
        obtain ⟨parent, hparent, hstop, hlend⟩ := (Ledger.borrow_strict_cases _ _).resolve_left (Ne.symm hne)
        exact Or.inr (meetsEqualEnd_of_refused hs hrun hstrict hcheck hparent hstop hlend)
      · have hsame : s.Parallel { s.config with nesting := .allowEqual } s.pairs (.borrow source kind holder region) := by
          refine borrow_withSettings (s := s.refreshed) fun stop hcheck => ?_
          by_contra hne
          refine hmeets ⟨stop, hcheck, ?_⟩
          rwa [show s.refreshed.config.nesting = .strict from hstrict] at hne
        exact Or.inl hsame.step_lenient
    · have hoverlooks : s.Overlooks { s.config with nesting := .allowEqual } s.pairs op := by
        cases op with
        | borrow source kind holder region => exact absurd ⟨source, kind, holder, region, rfl⟩ hborrow
        | scopeBegin id => rfl
        | _ => trivial
      exact Or.inl hoverlooks.parallel.step_lenient

/-! ## Streams -/

/-- The first operation at which the two sessions part is a borrow that meets an equal end. -/
theorem stepAll_lenient (hs : Reachable config s) (hstrict : s.config.nesting = .strict) (ops : List Operation) :
    (s.lenient.stepAll ops).1 = (s.stepAll ops).1 ∨
    ∃ before op after, ops = before ++ op :: after ∧ (s.lenient.stepAll before).1 = (s.stepAll before).1 ∧
      (s.stepAll before).2.MeetsEqualEnd op ∧
      ((s.lenient.stepAll before).2.step op).1 ≠ ((s.stepAll before).2.step op).1 := by
  induction ops generalizing s with
  | nil => exact Or.inl rfl
  | cons op ops ih =>
    rcases step_lenient hs hstrict op with hsame | ⟨hmeets, hne⟩
    · have hstrict' : (s.step op).2.config.nesting = .strict := by rw [(s.settings_step op).1, hstrict]
      rcases ih (hs.step op) hstrict' with hrest | ⟨before, later, after, rfl, hbefore, hmeets, hne⟩
      · left
        simp only [stepAll, hsame, hrest]
      · refine Or.inr ⟨op :: before, later, after, rfl, ?_, ?_, ?_⟩
        · simp only [stepAll, hsame, hbefore]
        · exact hmeets
        · simp only [stepAll, hsame]
          exact hne
    · exact Or.inr ⟨[], op, ops, rfl, rfl, hmeets, hne⟩

/-- The verdict on an operation in the midst of a stream, and those before it. -/
theorem verdicts_amid (s : Session) (before : List Operation) (op : Operation) (after : List Operation) :
    (s.stepAll (before ++ op :: after)).1.take before.length = (s.stepAll before).1 ∧
    (s.stepAll (before ++ op :: after)).1[before.length]? = some ((s.stepAll before).2.step op).1 := by
  have hlength := s.length_stepAll before
  rw [stepAll_append, ← hlength]
  exact ⟨List.take_left, by simp [stepAll]⟩

end Session

/-- **Lenient nesting relaxes strict nesting at equal ends only.** If the verdicts on a stream under the two nestings are
different, the first operation with two verdicts is a borrow. Strict nesting turns it down as one that outlives a loan it
goes through, and that loan ends exactly where the region of the borrow ends. So a stream that is accepted throughout
under strict nesting gets the same verdicts under lenient nesting. -/
theorem strict_parts_at_equal_end (mode : Mode) (ops : List Operation) :
    let strict := checkWith { mode, nesting := .strict } ops
    let lenient := checkWith { mode, nesting := .allowEqual } ops
    (strict ≠ lenient → ∃ before source kind holder region after,
      ops = before ++ .borrow source kind holder region :: after ∧
      strict.take before.length = lenient.take before.length ∧ strict[before.length]? ≠ lenient[before.length]? ∧
      let s := ((({ config := { mode, nesting := .strict } } : Session).paired ops).stepAll before).2
      ∃ parent ∈ s.refreshed.ledger.parents source, s.regionStop? region = some parent.stop ∧
        strict[before.length]? = some (.violation
          { Fault.about .loanOutlivesSource source (some parent) with index := before.length })) ∧
    ((∀ verdict ∈ strict, verdict = .ok) → lenient = strict) := by
  intro strict lenient
  let start := ({ config := { mode, nesting := .strict } } : Session).paired ops
  have hstart : Session.Reachable { mode, nesting := .strict } start := .paired ops (Session.Reachable.start _)
  have hruns := Session.stepAll_lenient hstart rfl ops
  refine ⟨fun hne => ?_, fun hok => ?_⟩
  · obtain ⟨before, op, after, hops, hbefore, hmeets, hdiffer⟩ := hruns.resolve_left (Ne.symm hne)
    obtain ⟨htake, hverdict⟩ := start.verdicts_amid before op after
    obtain ⟨htake', hverdict'⟩ := start.lenient.verdicts_amid before op after
    rw [← hops] at htake hverdict htake' hverdict'
    have hnext : (start.stepAll before).2.next = before.length := by
      rw [Session.next_stepAll]
      exact Nat.zero_add _
    cases hmeets with
    | @borrow source holder kind region stop parent hregion hparent hstop hviolation =>
      rw [hnext] at hviolation
      have hagree : strict.take before.length = lenient.take before.length :=
        htake.trans (hbefore.symm.trans htake'.symm)
      have hpart : strict[before.length]? ≠ lenient[before.length]? := fun hsame =>
        hdiffer (Option.some.inj (hverdict'.symm.trans (hsame.symm.trans hverdict)))
      exact ⟨before, source, kind, holder, region, after, hops, hagree, hpart, parent, hparent,
        hregion.trans (congrArg some hstop.symm), hverdict.trans (congrArg some hviolation)⟩
  · rcases hruns with hsame | ⟨before, op, after, hops, -, hmeets, -⟩
    · exact hsame
    · -- a borrow that is turned down is not accepted
      have hverdict := (start.verdicts_amid before op after).2
      rw [← hops] at hverdict
      have haccepted := hok _ (List.mem_of_getElem? hverdict)
      cases hmeets with
      | borrow _ _ _ hviolation => exact absurd (hviolation.symm.trans haccepted) (by simp)

/-- A reborrow for the span of the loan it goes through, which only strict nesting turns down. -/
theorem reborrow_for_same_span :
    let ops : List Operation := [.bindFreshMut (.var ⟨0⟩), .borrowExclusive (.var ⟨0⟩) (.var ⟨1⟩) (.span 1 5),
      .borrowExclusive ⟨⟨1⟩, [.deref]⟩ (.var ⟨2⟩) (.span 2 5)]
    let strict := checkWith { nesting := .strict } ops
    let lenient := checkWith { nesting := .allowEqual } ops
    strict ≠ lenient ∧ lenient = [.ok, .ok, .ok] ∧
    (∃ before source kind holder region after,
      ops = before ++ .borrow source kind holder region :: after ∧
      strict.take before.length = lenient.take before.length ∧ strict[before.length]? ≠ lenient[before.length]? ∧
      let s := ((({} : Session).paired ops).stepAll before).2
      ∃ parent ∈ s.refreshed.ledger.parents source, s.regionStop? region = some parent.stop ∧
        strict[before.length]? = some (.violation
          { Fault.about .loanOutlivesSource source (some parent) with index := before.length })) ∧
    checkWith { nesting := .allowEqual } (ops.take 2) = checkWith { nesting := .strict } (ops.take 2) := by
  intro ops strict lenient
  have hne : strict ≠ lenient := by decide
  exact ⟨hne, by decide, (strict_parts_at_equal_end .collectAll ops).1 hne,
    (strict_parts_at_equal_end .collectAll (ops.take 2)).2 (by decide)⟩

end BorrowChecker
