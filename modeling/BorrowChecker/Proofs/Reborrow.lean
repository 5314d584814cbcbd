import BorrowChecker.Proofs.Schedule

/-!
# Reborrows and the loans they go through

A loan whose source lies behind the holder of another loan is a reborrow, and goes through that loan. Under strict
nesting it ends before it, as far as the ends were foreseen when it was made. So time never takes the outer loan first,
and neither does a move of its holder, which is refused as long as anything is lent from behind it. But the outer loan
can be let go ahead of its time (`Session.LetsGo`): the holder gives it back, what it lends dies with its scope, its scope
closes before the end that was foreseen, or its holder is moved away as part of a window without elements. These are the
only ways in which a reborrow comes to outlive the loan it goes through (`reborrow_within_parent_iff`).
-/

namespace BorrowChecker

/-! ## Numbers of loans -/

namespace Ledger

variable {ledger : Ledger} {id : LoanId}

/-- Whether the loan with this number is live. -/
def Lives (ledger : Ledger) (id : LoanId) : Prop := (ledger.get? id).isSome = true

instance (ledger : Ledger) (id : LoanId) : Decidable (ledger.Lives id) :=
  inferInstanceAs (Decidable ((ledger.get? id).isSome = true))

theorem lives_iff : ledger.Lives id ↔ ∃ loan ∈ ledger.loans, loan.id = id := by
  rw [Lives, get?, List.find?_isSome]
  simp only [beq_iff_eq]

theorem Disciplined.eq_of_id_eq (h : ledger.Disciplined) {a b : Loan} (ha : a ∈ ledger.loans) (hb : b ∈ ledger.loans)
    (hid : a.id = b.id) : a = b :=
  List.inj_on_of_nodup_map h.nodup_ids ha hb hid

/-- Both loans are live, and the second goes through the first and is to end before it. -/
structure Nested (ledger : Ledger) (parent child : Loan) : Prop where
  parent_mem : parent ∈ ledger.loans
  child_mem : child ∈ ledger.loans
  through : parent.holder.isPrefixOf child.source = true
  within : child.stop < parent.stop

end Ledger

namespace Registry

variable {declared : Place → Prop} {r r' : Registry} {id : LoanId}

/-- The number has been given to a loan that is no longer live. -/
def Ended (id : LoanId) (r : Registry) : Prop := id.number < r.ledger.nextId ∧ ¬ r.ledger.Lives id

theorem Change.nextId_le (hchange : Change declared r r') : r.ledger.nextId ≤ r'.ledger.nextId := by
  cases hchange with
  | lend _ hledger =>
    obtain ⟨-, -, -, rfl⟩ := Ledger.borrow_eq_ok_iff.mp hledger
    exact Nat.le_succ _
  | _ => exact Nat.le_refl _

/-- Numbers are given once, so a loan that has ended does not come back. -/
theorem Change.ended (hchange : Change declared r r') (h : Ended id r) : Ended id r' := by
  refine ⟨Nat.lt_of_lt_of_le h.1 hchange.nextId_le, fun hlives => h.2 ?_⟩
  rw [Ledger.lives_iff] at hlives ⊢
  obtain ⟨loan, hloan, hid⟩ := hlives
  cases hchange with
  | lend _ hledger =>
    obtain ⟨-, -, rfl, rfl⟩ := Ledger.borrow_eq_ok_iff.mp hledger
    rcases List.mem_append.mp hloan with hold | hnew
    · exact ⟨loan, hold, hid⟩
    · rw [List.mem_singleton.mp hnew] at hid
      rw [← hid] at h
      exact absurd h.1 (Nat.lt_irrefl _)
  | retire hsub _ => exact ⟨loan, hsub.subset hloan, hid⟩
  | depart hsub => exact ⟨loan, hsub.subset hloan, hid⟩
  | rehome source target =>
    obtain ⟨old, hold, holder, rfl⟩ := Ledger.exists_of_mem_transfer hloan
    exact ⟨old, hold, hid⟩
  | _ => exact ⟨loan, hloan, hid⟩

end Registry

namespace Session

variable {config : Config} {s : Session} {op : Operation} {rest : List Operation} {id : LoanId}

theorem later_stepAll (s : Session) (ops : List Operation) : Later (fun _ _ => True) s (s.stepAll ops).2 :=
  Later.refl.stepAll fun _ _ _ => trivial

theorem Later.ended {allowed : Session → Operation → Prop} {t : Session} (hlater : Later allowed s t)
    (h : s.registry.Ended id) : t.registry.Ended id :=
  Later.invariant (fun _ _ _ _ _ hchange => hchange.ended) hlater h

/-- A loan that had its number before some operations and is live after them was live before them. -/
theorem lives_of_stepAll {ops : List Operation} (hissued : id.number < s.ledger.nextId)
    (h : (s.stepAll ops).2.ledger.Lives id) : s.ledger.Lives id := by
  by_contra hended
  exact ((later_stepAll s ops).ended ⟨hissued, hended⟩).2 h

theorem Later.issued {allowed : Session → Operation → Prop} {t : Session} (hlater : Later allowed s t)
    (h : id.number < s.ledger.nextId) : id.number < t.ledger.nextId :=
  Later.invariant (P := fun r => id.number < r.ledger.nextId)
    (fun _ _ _ _ _ hchange h => Nat.lt_of_lt_of_le h hchange.nextId_le) hlater h

theorem issued_step (h : id.number < s.ledger.nextId) (op : Operation) : id.number < (s.step op).2.ledger.nextId := by
  have hlater : Later (fun _ _ => True) s (s.step op).2 := Later.refl.step trivial
  exact hlater.issued h

theorem Reachable.config_eq (h : Reachable config s) : s.config = config := by
  refine h.preserved (P := fun t => t.config = config) rfl (fun _ _ ht => ht) (fun _ ht => ht) ?_
  intro t op stopped _ ht
  rw [apply_frame]
  exact ht

/-! ## Letting go -/

/-- The place whose value an operation takes away when it goes through. -/
def vacated? (s : Session) : Operation → Option Place
  | .move p | .drop p => some p
  | .copy p => s.movedFrom? (.copy p)
  | .bind _ init _ _ _ => s.movedFrom? init
  | _ => none

/-- The operation ends the loan ahead of its time, whatever is lent from behind its holder. -/
inductive LetsGo (s : Session) : Operation → Loan → Prop where
  /-- The holder gives the loan back. -/
  | release {p : Place} {loan : Loan} :
      (s.step (.release p)).1 = .ok → p.isPrefixOf loan.holder = true → LetsGo s (.release p) loan
  /-- The variable that is lent dies with its scope. -/
  | source {id : ScopeId} {p : Place} {loan : Loan} :
      s.stopped = false → s.closes id = true → p ∈ s.dying id → p.root = loan.source.root →
      LetsGo s (.scopeEnd id) loan
  /-- The scope that the loan is tied to closes before the end that was foreseen. -/
  | early {id : ScopeId} {loan : Loan} :
      s.stopped = false → s.closes id = true → loan.region = .scope id → s.next < loan.stop →
      LetsGo s (.scopeEnd id) loan
  /-- The holder is moved away inside a window without elements, which overlaps nothing. -/
  | window {op : Operation} {p : Place} {loan : Loan} :
      (s.step op).1 = .ok → s.vacated? op = some p → p.overlaps p = false → p.isPrefixOf loan.holder = true →
      LetsGo s op loan

/-- No operation of the stream lets the loan go. -/
def Holds (s : Session) (loan : Loan) : List Operation → Prop
  | [] => True
  | op :: ops => ¬ s.LetsGo op loan ∧ (s.step op).2.Holds loan ops

theorem overlapping_of_vacated {p : Place} (hop : s.vacated? op = some p) (hok : (s.apply op).1 = none) :
    s.ledger.overlapping p = [] := by
  cases op with
  | move q =>
    cases hop
    obtain ⟨_, hcheck, -⟩ := guarded_accepted hok
    exact (checkMove_eq_ok_iff.mp hcheck).2
  | drop q =>
    cases hop
    obtain ⟨_, hcheck, -⟩ := guarded_accepted hok
    exact overlapping_of_checkDrop hcheck
  | copy q =>
    obtain ⟨moves, hcheck, -⟩ := guarded_accepted hok
    have hinit : s.checkInit (.copy q) = .ok (if moves then some q else none) := map_eq_ok_iff.mpr ⟨moves, hcheck, rfl⟩
    have hmoved : s.vacated? (.copy q) = _ := movedFrom?_of_checkInit hinit
    rw [← hmoved, hop] at hinit
    exact overlapping_of_checkInit hinit
  | bind target init mutable perms facts =>
    obtain ⟨source, store, hinit, -, -⟩ := bind_accepted hok
    have hmoved : s.vacated? (.bind target init mutable perms facts) = source := movedFrom?_of_checkInit hinit
    rw [← hmoved, hop] at hinit
    exact overlapping_of_checkInit hinit
  | _ => exact absurd hop (by simp [vacated?])

/-- The loans held at a place that is vacated or inside it end, unless a variable hands its own on. -/
theorem fate_of_vacated {p : Place} (hop : s.vacated? op = some p) (loan : Loan) :
    s.fate op loan = endHeldBy p loan ∨ (p.isVar = true ∧ loan.holder = p) := by
  cases op with
  | move q =>
    cases hop
    exact Or.inl rfl
  | drop q =>
    cases hop
    exact Or.inl rfl
  | copy q =>
    rw [vacated?, movedFrom?] at hop
    split at hop
    · exact absurd hop (by simp)
    next hdup =>
      cases hop
      rw [fate, if_neg hdup]
      exact Or.inl rfl
  | bind target init mutable perms facts =>
    rw [vacated?] at hop
    simp only [fate, hop]
    split
    next hhanded => exact Or.inr ⟨isVar_of_heldKind? hhanded.2, hhanded.1⟩
    next => exact Or.inl rfl
  | _ => exact absurd hop (by simp [vacated?])

theorem entered_of_vacated {p : Place} (hop : s.vacated? op = some p) : s.entered op = [] := by
  cases op with
  | borrow source kind holder region => exact absurd hop (by simp [vacated?])
  | _ => rfl

/-! ## One step -/

theorem LetsGo.fate {loan : Loan} (h : s.LetsGo op loan) :
    s.stopped = false ∧ s.refreshed.TakesEffect op ∧ s.refreshed.fate op loan = none ∧ s.refreshed.entered op = [] := by
  cases h with
  | release hok hinside =>
    obtain ⟨hrun, hnone, -⟩ := step_accepted hok
    exact ⟨hrun, Or.inl hnone, if_pos hinside, rfl⟩
  | @source id p _ hrun hcloses hp hroot =>
    have hends : ¬ s.refreshed.outlasts id loan = true := fun hlasts => ((outlasts_iff.mp hlasts).2 p hp).1 hroot
    have hcloses' : s.refreshed.closes id = true := hcloses
    exact ⟨hrun, Or.inr ⟨id, rfl⟩, by simp [Session.fate, hcloses', hends], rfl⟩
  | @early id _ hrun hcloses hregion =>
    have hends : ¬ s.refreshed.outlasts id loan = true := fun hlasts => (outlasts_iff.mp hlasts).1 hregion
    have hcloses' : s.refreshed.closes id = true := hcloses
    exact ⟨hrun, Or.inr ⟨id, rfl⟩, by simp [Session.fate, hcloses', hends], rfl⟩
  | @window _ p _ hok hop hself hinside =>
    obtain ⟨hrun, hnone, -⟩ := step_accepted hok
    have hop' : s.refreshed.vacated? op = some p := by cases op <;> exact hop
    refine ⟨hrun, Or.inl hnone, ?_, entered_of_vacated hop'⟩
    rcases fate_of_vacated hop' loan with hfate | ⟨hvar, -⟩
    · rw [hfate]
      exact if_pos hinside
    · rw [Place.overlaps_of_isVar hvar, beq_self_eq_true] at hself
      exact Bool.noConfusion hself

/-- A loan that an operation lets go is not among the live ones afterwards. -/
theorem LetsGo.not_lives (hs : Reachable config s) {loan : Loan} (hloan : loan ∈ s.ledger.loans)
    (h : s.LetsGo op loan) : ¬ (s.step op).2.ledger.Lives loan.id := by
  obtain ⟨hrun, heffect, hfate, hentered⟩ := h.fate
  rw [Ledger.lives_iff]
  rintro ⟨loan', hloan', hid⟩
  rcases loans_step_cases hs hrun op with ⟨-, hloans⟩ | ⟨hnot, -⟩
  · rw [hloans, hentered, List.append_nil] at hloan'
    obtain ⟨old, hold, hkept⟩ := List.mem_filterMap.mp hloan'
    have hsame : old.id = loan.id := by
      rw [← hid, eq_of_fate hkept]
    rw [hs.sound.disciplined.eq_of_id_eq (mem_refreshed_iff.mp hold).1 hloan hsame, hfate] at hkept
    exact absurd hkept (by simp)
  · exact hnot heffect

theorem nextId_refreshed (s : Session) : s.refreshed.ledger.nextId = s.ledger.nextId := rfl

/-- The time of the outer loan is not over before that of the inner one. -/
theorem nested_refreshed (hs : Reachable config s) (hrun : s.stopped = false) (hschedule : s.OnSchedule rest)
    {parent child : Loan} (hnested : s.ledger.Nested parent child) (hindex : parent.stop ≤ lastIndex)
    (hchild : child ∈ s.refreshed.ledger.loans) : s.refreshed.ledger.Nested parent child ∧ s.next ≤ child.stop := by
  have hwithin := hnested.within
  have hnext : s.next ≤ child.stop := by
    rcases time_left hs hrun hschedule hchild with hleft | hlast
    · exact hleft
    · omega
  have hparent : Ledger.expired s.next parent = false := by
    rw [Ledger.expired]
    split
    · rw [decide_eq_false_iff_not]
      omega
    · rfl
  exact ⟨⟨mem_refreshed_iff.mpr ⟨hnested.parent_mem, hparent⟩, hchild, hnested.through, hwithin⟩, hnext⟩

/-- What the inner loan lends lies behind the holder of the outer one, so that can be vacated only if it overlaps nothing,
not even itself. -/
theorem fate_of_parent_of_vacated (hrun : s.stopped = false) {parent child : Loan}
    (hnested : s.refreshed.ledger.Nested parent child) (hnone : (s.refreshed.apply op).1 = none) {p : Place}
    (hop : s.refreshed.vacated? op = some p) : s.refreshed.fate op parent = some parent ∨ s.LetsGo op parent := by
  cases hinside : p.isPrefixOf parent.holder with
  | false =>
    left
    rcases fate_of_vacated hop parent with hfate | ⟨-, hholder⟩
    · rw [hfate, endHeldBy, hinside]
      rfl
    · rw [hholder, Place.isPrefixOf_refl] at hinside
      exact Bool.noConfusion hinside
  | true =>
    right
    have hfree : child.source.overlaps p = false :=
      Ledger.overlapping_eq_nil_iff.mp (overlapping_of_vacated hop hnone) child hnested.child_mem
    rw [Place.overlaps_of_isPrefixOf (Place.isPrefixOf_trans hinside hnested.through)] at hfree
    have hvacated : s.vacated? op = some p := by cases op <;> exact hop
    exact .window (step_ok hrun hnone) hvacated hfree hinside

/-- A scope that closes and ends the outer loan only would have to be the one that this loan is tied to, or the one of
what it lends. The one of its holder ends both. -/
theorem outlasts_of_parent (hrun : s.stopped = false) {parent child : Loan}
    (hnested : s.refreshed.ledger.Nested parent child) (hnext : s.next ≤ child.stop) {id : ScopeId}
    (hcloses : s.closes id = true) (hchild : s.refreshed.outlasts id child = true)
    (hgo : ¬ s.LetsGo (.scopeEnd id) parent) :
    s.refreshed.outlasts id parent = true := by
  have hwithin := hnested.within
  have hroot : parent.holder.root = child.source.root := Place.root_eq_of_isPrefixOf hnested.through
  refine outlasts_iff.mpr ⟨fun hregion => hgo ?_, fun p hp => ⟨fun hsource => hgo ?_, fun hholder => ?_⟩⟩
  · exact .early hrun hcloses hregion (by omega)
  · exact .source hrun hcloses hp hsource
  · exact ((outlasts_iff.mp hchild).2 p hp).1 (hholder.trans hroot)

/-- An operation that leaves the inner loan live leaves the outer one as it is, or lets it go. -/
theorem fate_of_parent (hrun : s.stopped = false) {parent child : Loan}
    (hnested : s.refreshed.ledger.Nested parent child) (hnext : s.next ≤ child.stop)
    (heffect : s.refreshed.TakesEffect op) (hchild : (s.refreshed.fate op child).isSome = true) :
    s.refreshed.fate op parent = some parent ∨ s.LetsGo op parent := by
  cases hop : s.refreshed.vacated? op with
  | some p =>
    refine fate_of_parent_of_vacated hrun hnested (heffect.resolve_right ?_) hop
    rintro ⟨id, rfl⟩
    exact absurd hop (by simp [vacated?])
  | none =>
    cases op with
    | scopeEnd id =>
      by_cases hgo : s.LetsGo (.scopeEnd id) parent
      · exact Or.inr hgo
      · left
        rw [fate] at hchild ⊢
        by_cases hcloses : s.refreshed.closes id = true
        · have hlasts : s.refreshed.outlasts id child = true := by
            by_contra hends
            simp [hcloses, hends] at hchild
          simp [outlasts_of_parent hrun hnested hnext hcloses hlasts hgo]
        · simp [hcloses]
    | release p =>
      cases hinside : p.isPrefixOf parent.holder with
      | false =>
        left
        rw [fate, endHeldBy, hinside]
        rfl
      | true => exact Or.inr (.release (step_ok hrun (heffect.resolve_right (by simp))) hinside)
    | copy p =>
      left
      rw [vacated?, movedFrom?] at hop
      split at hop
      next hdup => rw [fate, if_pos hdup]
      next => exact absurd hop (by simp)
    | bind target init mutable perms facts =>
      left
      rw [vacated?] at hop
      simp only [fate, hop]
    | move p => exact absurd hop (by simp [vacated?])
    | drop p => exact absurd hop (by simp [vacated?])
    | _ => exact Or.inl rfl

theorem nested_step (hs : Reachable config s) (hschedule : s.OnSchedule rest) {parent child : Loan}
    (hnested : s.ledger.Nested parent child) (hindex : parent.stop ≤ lastIndex)
    (hlives : (s.step op).2.ledger.Lives child.id) :
    (∃ child', child'.id = child.id ∧ (s.step op).2.ledger.Nested parent child') ∨ s.LetsGo op parent := by
  have hledger := hs.sound.disciplined
  cases hrun : s.stopped with
  | true =>
    rw [step_of_stopped hrun]
    exact Or.inl ⟨child, rfl, hnested⟩
  | false =>
    obtain ⟨loan, hloan, hid⟩ := Ledger.lives_iff.mp hlives
    rcases loans_step_cases hs hrun op with ⟨heffect, hloans⟩ | ⟨-, hloans⟩
    · rw [hloans] at hloan
      rcases List.mem_append.mp hloan with hkept | hnew
      · obtain ⟨old, hold, hfate⟩ := List.mem_filterMap.mp hkept
        have hsame := eq_of_fate hfate
        obtain rfl : old = child := by
          refine hledger.eq_of_id_eq (mem_refreshed_iff.mp hold).1 hnested.child_mem ?_
          rw [← hid, hsame]
        obtain ⟨hrefreshed, hnext⟩ := nested_refreshed hs hrun hschedule hnested hindex hold
        rcases fate_of_parent hrun hrefreshed hnext heffect (by rw [hfate]; rfl) with hparent | hgo
        · left
          refine ⟨loan, hid, ?_, by rw [hloans]; exact hloan, ?_, ?_⟩
          · rw [hloans]
            exact List.mem_append_left _ (List.mem_filterMap.mpr ⟨parent, hrefreshed.parent_mem, hparent⟩)
          · rw [hsame]
            exact hnested.through
          · rw [hsame]
            exact hnested.within
        · exact Or.inr hgo
      · have hbound : child.id.number < s.ledger.nextId := hledger.bounded child hnested.child_mem
        rw [← hid, id_of_mem_entered hnew, nextId_refreshed] at hbound
        exact absurd hbound (Nat.lt_irrefl _)
    · rw [hloans] at hloan
      obtain rfl := hledger.eq_of_id_eq (mem_refreshed_iff.mp hloan).1 hnested.child_mem hid
      obtain ⟨hrefreshed, -⟩ := nested_refreshed hs hrun hschedule hnested hindex hloan
      left
      refine ⟨loan, rfl, ?_, ?_, hnested.through, hnested.within⟩
      · rw [hloans]
        exact hrefreshed.parent_mem
      · rw [hloans]
        exact hloan

/-! ## Whole runs -/

theorem lives_parent_iff (hs : Reachable config s) {during after : List Operation}
    (hschedule : s.OnSchedule (during ++ after)) {parent child : Loan} (hnested : s.ledger.Nested parent child)
    (hindex : parent.stop ≤ lastIndex) (hlives : (s.stepAll during).2.ledger.Lives child.id) :
    (s.stepAll during).2.ledger.Lives parent.id ↔ s.Holds parent during := by
  induction during generalizing s child with
  | nil => exact iff_of_true (Ledger.lives_iff.mpr ⟨parent, hnested.parent_mem, rfl⟩) trivial
  | cons op during ih =>
    have hissued : ∀ loan ∈ s.ledger.loans, loan.id.number < (s.step op).2.ledger.nextId := fun loan hloan =>
      issued_step (hs.sound.disciplined.bounded loan hloan) op
    have hchild : (s.step op).2.ledger.Lives child.id := lives_of_stepAll (hissued child hnested.child_mem) hlives
    rcases nested_step hs hschedule hnested hindex hchild with ⟨child', hid, hnested'⟩ | hgo
    · have hkept : ¬ s.LetsGo op parent := fun hgo =>
        hgo.not_lives hs hnested.parent_mem (Ledger.lives_iff.mpr ⟨parent, hnested'.parent_mem, rfl⟩)
      have hrest := ih (hs.step op) hschedule.step hnested' (hid ▸ hlives)
      exact hrest.trans ⟨fun hholds => ⟨hkept, hholds⟩, fun hholds => hholds.2⟩
    · -- once let go, the outer loan is gone for good
      refine iff_of_false (fun hparent => ?_) (fun hholds => hholds.1 hgo)
      exact hgo.not_lives hs hnested.parent_mem (lives_of_stepAll (hissued parent hnested.parent_mem) hparent)

theorem within_of_borrow {source holder : Place} {kind : BorrowKind} {region : Region}
    (hok : (s.borrow source kind holder region).1 = none) (hstrict : s.config.nesting = .strict) {parent child : Loan}
    (hparent : parent ∈ s.ledger.loans) (hthrough : parent.holder.isPrefixOf source = true)
    (hchild : child ∈ s.entered (.borrow source kind holder region)) : child.stop < parent.stop := by
  obtain ⟨stop, id, ledger, hcheck, hlend, -⟩ := borrow_accepted hok
  have hstop : s.regionStop? region = some stop := (checkBorrow_eq_ok_iff.mp hcheck).1
  have hnests := List.find?_eq_none.mp (Ledger.borrow_eq_ok_iff.mp hlend).2.1 parent
    (Ledger.mem_parents.mpr ⟨hparent, hthrough⟩)
  rw [entered, hstop] at hchild
  rw [List.mem_singleton.mp hchild]
  simpa [hstrict, Nesting.nests] using hnests

/-- A loan that a step enters under strict nesting is to end before the loans that it goes through. -/
theorem nested_of_entered (hs : Reachable config s) (hstrict : config.nesting = .strict) {parent child : Loan}
    (hparent : parent ∈ s.refreshed.ledger.loans) (hnew : ¬ s.ledger.Lives child.id)
    (hchild : child ∈ (s.step op).2.ledger.loans) (hthrough : parent.holder.isPrefixOf child.source = true) :
    (s.step op).2.ledger.Nested parent child := by
  have hother : ∀ loan ∈ s.refreshed.ledger.loans, loan.id ≠ child.id := fun loan hloan hid =>
    hnew (Ledger.lives_iff.mpr ⟨loan, (mem_refreshed_iff.mp hloan).1, hid⟩)
  cases hrun : s.stopped with
  | true =>
    rw [step_of_stopped hrun] at hchild
    exact absurd (Ledger.lives_iff.mpr ⟨child, hchild, rfl⟩) hnew
  | false =>
    rcases loans_step_cases hs hrun op with ⟨heffect, hloans⟩ | ⟨-, hloans⟩
    · have hmem := hchild
      rw [hloans] at hmem
      rcases List.mem_append.mp hmem with hkept | hentered
      · obtain ⟨old, hold, hfate⟩ := List.mem_filterMap.mp hkept
        exact absurd (by rw [eq_of_fate hfate]) (hother old hold)
      · cases op with
        | borrow source kind holder region =>
          have hok : (s.refreshed.borrow source kind holder region).1 = none := heffect.resolve_right (by simp)
          have hsource : child.source = source := by
            obtain ⟨stop, -, rfl⟩ := List.mem_map.mp hentered
            rfl
          have hnesting : s.refreshed.config.nesting = .strict := (congrArg Config.nesting hs.config_eq).trans hstrict
          refine ⟨?_, hchild, hthrough, within_of_borrow hok hnesting hparent (hsource ▸ hthrough) hentered⟩
          rw [hloans]
          exact List.mem_append_left _ (List.mem_filterMap.mpr ⟨parent, hparent, rfl⟩)
        | _ => exact absurd hentered List.not_mem_nil
    · rw [hloans] at hchild
      exact absurd rfl (hother child hchild)

/-- **A reborrow lives within the loan it goes through** unless that loan is let go. In a run on a new session under
strict nesting, let a step enter a loan that goes through a live one. At any later point where the new loan is live, the
loan it goes through is live if and only if no operation in between has let it go. Ends are indices of 64 bits. -/
theorem reborrow_within_parent_iff (hstrict : config.nesting = .strict) {before during after : List Operation}
    {op : Operation} {parent child : Loan} (hindex : parent.stop ≤ lastIndex)
    (hthrough : parent.holder.isPrefixOf child.source = true) :
    let s := ((({ config } : Session).paired (before ++ op :: (during ++ after))).stepAll before).2
    let t := (s.step op).2
    parent ∈ s.refreshed.ledger.loans → ¬ s.ledger.Lives child.id → child ∈ t.ledger.loans →
    (t.stepAll during).2.ledger.Lives child.id →
    ((t.stepAll during).2.ledger.Lives parent.id ↔ t.Holds parent during) := by
  intro s t hparent hnew hchild hlives
  have hs : Reachable config s := (Reachable.start config).amid before (op :: (during ++ after))
  have hschedule : s.OnSchedule (op :: (during ++ after)) :=
    OnSchedule.stepAll fun _ => ⟨[], scheduled_start config _⟩
  have hnested : t.ledger.Nested parent child := nested_of_entered hs hstrict hparent hnew hchild hthrough
  exact lives_parent_iff (hs.step op) hschedule.step hnested hindex hlives

/-- A write behind the reborrow, which leaves both loans live. -/
theorem reborrow_used_within_parent :
    let before : List Operation := [.bindFreshMut (.var ⟨0⟩), .borrowExclusive (.var ⟨0⟩) (.var ⟨1⟩) (.scope .root)]
    let op : Operation := .borrowExclusive ⟨⟨1⟩, [.deref]⟩ (.var ⟨2⟩) (.span 2 9)
    let during : List Operation := [.mutate ⟨⟨2⟩, [.deref]⟩]
    let parent : Loan := ⟨⟨.var ⟨0⟩, .exclusive, .var ⟨1⟩, .scope .root, lastIndex, 1⟩, ⟨0⟩⟩
    let child : Loan := ⟨⟨⟨⟨1⟩, [.deref]⟩, .exclusive, .var ⟨2⟩, .span 2 9, 9, 2⟩, ⟨1⟩⟩
    let s := ((({} : Session).paired (before ++ op :: (during ++ []))).stepAll before).2
    let t := (s.step op).2
    parent ∈ s.refreshed.ledger.loans ∧ ¬ s.ledger.Lives child.id ∧ child ∈ t.ledger.loans ∧
    (t.stepAll during).2.ledger.Lives child.id ∧ (t.stepAll during).2.ledger.Lives parent.id := by
  intro before op during parent child s t
  have hparent : parent ∈ s.refreshed.ledger.loans := by decide
  have hnew : ¬ s.ledger.Lives child.id := by decide
  have hchild : child ∈ t.ledger.loans := by decide
  have hlives : (t.stepAll during).2.ledger.Lives child.id := by decide
  have hholds : t.Holds parent during := by
    refine ⟨fun hgo => ?_, trivial⟩
    cases hgo with
    | window _ hop _ _ => exact absurd hop (by simp [vacated?])
  exact ⟨hparent, hnew, hchild, hlives,
    (reborrow_within_parent_iff rfl (by decide) (by decide) hparent hnew hchild hlives).mpr hholds⟩

/-- The holder gives its loan back and the reborrow through it stays, so the variable is free while an exclusive reference
still leads to it. -/
theorem reborrow_outlives_released_parent :
    let ops : List Operation := [.bindFreshMut (.var ⟨0⟩), .borrowExclusive (.var ⟨0⟩) (.var ⟨1⟩) (.scope .root),
      .borrowExclusive ⟨⟨1⟩, [.deref]⟩ (.var ⟨2⟩) (.span 2 9), .release (.var ⟨1⟩)]
    let s := ((({} : Session).paired ops).stepAll (ops.take 3)).2
    let t := (({} : Session).run ops)
    s.ledger.loans.map (fun loan => (loan.id.number, loan.source, loan.holder)) =
      [(0, .var ⟨0⟩, .var ⟨1⟩), (1, ⟨⟨1⟩, [.deref]⟩, .var ⟨2⟩)] ∧
    t.1 = [.ok, .ok, .ok, .ok] ∧ t.2.ledger.Lives ⟨1⟩ ∧ ¬ t.2.ledger.Lives ⟨0⟩ := by
  decide

end Session

end BorrowChecker
