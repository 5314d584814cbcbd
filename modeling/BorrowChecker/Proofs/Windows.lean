import BorrowChecker.Proofs.Destination
import BorrowChecker.Proofs.ScopeExit

/-!
# Windows that are lent

A window of an array can be lent only while the array is split there. A split is forgotten when the scope that made it
closes, and a loan ends with its own region and its holder, so neither has to wait for the other. A loan that is tied to
the scope of the split, or held by one of its variables, ends with it. A loan that outlasts the scope is stranded: its
source can no longer be named, although it is still lent (`window_lent_beyond_its_split`). Closing a scope is the only way
to get there, so as long as a loan is not stranded its source passes the check of paths
(`lent_windows_split_unless_stranded`).
-/

namespace BorrowChecker

/-- Whether the window is one of the halves that the split makes. -/
def Split.makes (split : Split) (w : Place.Window) : Bool :=
  let half := w.array.project (.subslice w.lo w.hi)
  half == (split.array.halves split.boundary).1 || half == (split.array.halves split.boundary).2

theorem Split.makes_iff {split : Split} {w : Place.Window} : split.makes w = true ↔
    split.array = w.array ∧ ((w.lo = 0 ∧ w.hi = some split.boundary) ∨ (w.lo = split.boundary ∧ w.hi = none)) := by
  obtain ⟨⟨root, path⟩, boundary, scope⟩ := split
  obtain ⟨⟨root', path'⟩, lo, hi⟩ := w
  simp only [makes, Place.halves, Place.project, Bool.or_eq_true, beq_iff_eq, Place.mk.injEq, List.concat_inj,
    Projection.subslice.injEq, ← List.concat_eq_append]
  grind

namespace Splits

variable {splits : Splits} {scope : ScopeId} {w : Place.Window}

theorem has_iff : splits.has w = true ↔ ∃ split ∈ splits.records, split.array = w.array ∧
    ((w.lo = 0 ∧ w.hi = some split.boundary) ∨ (w.lo = split.boundary ∧ w.hi = none)) := by
  simp [has]

/-- A window is lost with the splits of a scope if no other scope has made it. -/
theorem has_discard_eq_false_iff : (splits.discard scope).has w = false ↔
    ∀ split ∈ splits.records, split.makes w = true → split.scope = scope := by
  rw [← Bool.not_eq_true, has_iff]
  simp only [← Split.makes_iff]
  constructor
  · intro hlost split hsplit hmakes
    by_contra hother
    exact hlost ⟨split, List.mem_filter.mpr ⟨hsplit, bne_iff_ne.mpr hother⟩, hmakes⟩
  · rintro honly ⟨split, hsplit, hmakes⟩
    obtain ⟨hmem, hother⟩ := List.mem_filter.mp hsplit
    exact bne_iff_ne.mp hother (honly split hmem hmakes)

/-- A window comes from the splits that it came from before, however many others are made. -/
theorem has_insert (h : splits.has w = true) (split : Split) : (splits.insert split).has w = true := by
  rw [insert]
  split
  · exact h
  · rw [has, List.any_append]
    exact Bool.or_eq_true_iff.mpr (Or.inl h)

end Splits

namespace Session

variable {s : Session} {op : Operation} {id : LoanId}

/-! ## Splits in force -/

/-- The splits in force after an operation, whatever the verdict. -/
def splitsAfter (s : Session) : Operation → Splits
  | .split array boundary =>
    if s.isLive array then s.splits.insert ⟨array, boundary, s.currentScope⟩ else s.splits
  | .scopeEnd id => if s.closes id then s.splits.discard id else s.splits
  | _ => s.splits

theorem splits_borrow {source holder : Place} {kind : BorrowKind} {region : Region}
    (hnone : (s.borrow source kind holder region).1 = none) :
    (s.borrow source kind holder region).2.splits = s.splits := by
  obtain ⟨stop, loan, ledger, -, -, hprepare⟩ := borrow_accepted hnone
  rcases (prepareHolder_cases hprepare).2 with ⟨-, -, ht⟩ | ⟨-, store, -, ht⟩ | ⟨-, store, -, ht⟩
  all_goals
    rw [ht]
    rfl

theorem splits_guarded {α : Type} {check : Except Fault α} {change : α → Registry}
    (h : ∀ a, (change a).splits = s.splits) : (s.guarded check change).2.splits = s.splits := by
  rcases s.guarded_cases check change with ⟨fault, -, hguarded⟩ | ⟨a, -, hguarded⟩
  · rw [hguarded]
  · rw [hguarded]
    exact h a

theorem splits_apply (hledger : s.ledger.Disciplined) (op : Operation) :
    (s.apply op).2.splits = s.splitsAfter op := by
  cases op with
  | scopeBegin id =>
    rcases s.beginScope_cases id with hbegin | ⟨-, hbegin⟩
    · rw [apply, hbegin]
      rfl
    · rw [apply, hbegin]
      rfl
  | scopeEnd id =>
    rw [apply, splitsAfter]
    split
    next hcloses => exact congrArg Splits.mk (splits_endScope hcloses)
    next hcloses => rw [endScope_of_not_closes hcloses]
  | bind target init mutable perms facts =>
    cases hfault : (s.bind target init mutable perms facts).1 with
    | none => exact splits_bind hfault
    | some fault => exact (bind_refused hfault).splits
  | borrow source kind holder region =>
    cases hfault : (s.borrow source kind holder region).1 with
    | none => exact splits_borrow hfault
    | some fault => exact (borrow_refused hledger hfault).splits
  | split array boundary =>
    rw [apply, splitsAfter]
    split
    next hlive =>
      rw [isLive_iff.mp hlive]
      rfl
    next hdead =>
      rcases s.guarded_cases (s.checkLive array) fun _ => (s.registry.split array boundary s.currentScope).2 with
        ⟨fault, -, hguarded⟩ | ⟨_, hlive, -⟩
      · rw [hguarded]
      · exact absurd (isLive_iff.mpr hlive) hdead
  | project p facts =>
    refine splits_guarded fun _ => ?_
    split
    · rfl
    · rw [Registry.registerFacts]
      split <;> rfl
  | move p => exact splits_guarded fun _ => Registry.splits_withdraw _ p
  | drop p => exact splits_guarded fun _ => Registry.splits_withdraw _ p
  | copy p =>
    refine splits_guarded fun moves => ?_
    cases moves with
    | false => rfl
    | true => exact Registry.splits_withdraw _ p
  | mutate p => exact splits_guarded fun _ => rfl
  | access p needs => exact splits_guarded fun _ => rfl
  | release p => exact splits_guarded fun _ => rfl
  | unchecked p => rfl

/-- That loans run out does not change how arrays are split. -/
theorem splitsAfter_refreshed (s : Session) (op : Operation) : s.refreshed.splitsAfter op = s.splitsAfter op := by
  cases op <;> rfl

theorem splits_step {config : Config} (hs : Reachable config s) (hrun : s.stopped = false) (op : Operation) :
    (s.step op).2.splits = s.splitsAfter op := by
  obtain ⟨stopped, hstep⟩ := s.step_running hrun op
  rw [hstep, ← splitsAfter_refreshed]
  exact splits_apply hs.refreshed_disciplined op

/-! ## Stranded loans -/

/-- Whether the operation closes a scope that the loan with this number outlasts, and on the way to what is lent there is
a window that only splits of the scope make. -/
def strands (s : Session) : Operation → LoanId → Bool
  | .scopeEnd scope, id =>
    !s.stopped && s.closes scope && s.refreshed.ledger.loans.any fun loan =>
      loan.id == id && s.outlasts scope loan && loan.source.windows.any fun w =>
        s.splits.records.all fun split => !split.makes w || split.scope == scope
  | _, _ => false

theorem strands_scopeEnd_iff {scope : ScopeId} :
    s.strands (.scopeEnd scope) id = true ↔
      s.stopped = false ∧ s.closes scope = true ∧
        ∃ loan ∈ s.refreshed.ledger.loans, loan.id = id ∧ s.outlasts scope loan = true ∧
          ∃ w ∈ loan.source.windows, (s.splits.discard scope).has w = false := by
  have honly : ∀ w, (s.splits.records.all fun split => !split.makes w || split.scope == scope) = true ↔
      (s.splits.discard scope).has w = false := by
    intro w
    rw [Splits.has_discard_eq_false_iff, List.all_eq_true]
    refine forall₂_congr fun split _ => ?_
    cases split.makes w <;> simp
  simp only [strands, Bool.and_eq_true, Bool.not_eq_true', List.any_eq_true, beq_iff_eq, and_assoc, honly]

/-- Every window on the way to what the loan with this number lends comes from a split in force. -/
def Backed (s : Session) (id : LoanId) : Prop :=
  ∀ loan ∈ s.ledger.loans, loan.id = id → ∀ w ∈ loan.source.windows, s.splits.has w = true

/-- A window that comes from a split comes from one after the operation, too, unless its scope closes. -/
theorem has_splitsAfter {w : Place.Window} (h : s.splits.has w = true)
    (hkept : ∀ scope, op = .scopeEnd scope → s.closes scope = true → (s.splits.discard scope).has w = true) :
    (s.splitsAfter op).has w = true := by
  cases op with
  | split array boundary =>
    rw [splitsAfter]
    split
    · exact Splits.has_insert h _
    · exact h
  | scopeEnd scope =>
    rw [splitsAfter]
    split
    next hcloses => exact hkept scope rfl hcloses
    next => exact h
  | _ => exact h

/-- What is lent can be named when it is lent. -/
theorem has_of_entered {loan : Loan} (hnone : (s.apply op).1 = none) (hloan : loan ∈ s.entered op) :
    ∀ w ∈ loan.source.windows, (s.splitsAfter op).has w = true := by
  cases op with
  | borrow source kind holder region =>
    obtain ⟨stop, -, rfl⟩ := List.mem_map.mp hloan
    obtain ⟨stop, number, ledger, hcheck, -⟩ := borrow_accepted hnone
    have hlive := (checkBorrow_eq_ok_iff.mp hcheck).2.1
    exact List.all_eq_true.mp (isLive_iff_windows.mp (isLive_iff.mpr hlive)).1
  | _ => exact absurd hloan List.not_mem_nil

/-- The scope that an operation closes is outlasted by the loans that it leaves. -/
theorem outlasts_of_fate {scope : ScopeId} {loan loan' : Loan} (hfate : s.fate (.scopeEnd scope) loan = some loan')
    (hcloses : s.closes scope = true) : s.outlasts scope loan = true := by
  by_contra houtlasts
  simp [fate, hcloses, houtlasts] at hfate

theorem backed_step {config : Config} (hs : Reachable config s) (hkept : s.strands op id = false) (h : s.Backed id) :
    (s.step op).2.Backed id := by
  cases hrun : s.stopped with
  | true =>
    rw [step_of_stopped hrun]
    exact h
  | false =>
    intro loan hloan hid w hw
    rw [splits_step hs hrun]
    -- a loan that the step leaves is backed as before, unless it outlasts the scope that the step closes
    have hold : ∀ old ∈ s.refreshed.ledger.loans, old.id = id → w ∈ old.source.windows →
        (∀ scope, op = .scopeEnd scope → s.closes scope = true → s.outlasts scope old = true) →
        (s.splitsAfter op).has w = true := by
      intro old hold hid hw houtlasts
      refine has_splitsAfter (h old (mem_refreshed_iff.mp hold).1 hid w hw) fun scope hop hcloses => ?_
      by_contra hlost
      rw [hop, ← Bool.not_eq_true] at hkept
      exact hkept (strands_scopeEnd_iff.mpr
        ⟨hrun, hcloses, old, hold, hid, houtlasts scope hop hcloses, w, hw, Bool.not_eq_true _ ▸ hlost⟩)
    rcases loans_step_cases hs hrun op with ⟨heffect, hloans⟩ | ⟨hrefused, hloans⟩
    · rw [hloans] at hloan
      rcases List.mem_append.mp hloan with hkept | hnew
      · obtain ⟨old, hmem, hfate⟩ := List.mem_filterMap.mp hkept
        have hsame := eq_of_fate hfate
        rw [hsame] at hid hw
        refine hold old hmem hid hw fun scope hop hcloses => ?_
        subst hop
        exact outlasts_of_fate (s := s.refreshed) hfate hcloses
      · -- only a borrow that goes through enters a loan
        have hnone : (s.refreshed.apply op).1 = none := by
          refine heffect.resolve_right ?_
          rintro ⟨scope, rfl⟩
          exact absurd hnew List.not_mem_nil
        rw [← splitsAfter_refreshed]
        exact has_of_entered hnone hnew w hw
    · rw [hloans] at hloan
      exact hold loan hloan hid hw fun scope hop => absurd (Or.inr ⟨scope, hop⟩) hrefused

theorem Later.backed {config : Config} (h : Later (fun t op => t.strands op id = false) { config } s) : s.Backed id := by
  induction h with
  | refl => exact fun _ hloan => absurd hloan List.not_mem_nil
  | step hbefore hkept ih => exact backed_step hbefore.reachable hkept ih
  | paired ops _ ih => exact ih

/-- The source of a loan is usable exactly if every window on the way to it comes from a split in force. -/
theorem isLive_source_iff {config : Config} (hs : Reachable config s) {loan : Loan} (hloan : loan ∈ s.ledger.loans) :
    s.isLive loan.source = true ↔ ∀ w ∈ loan.source.windows, s.splits.has w = true := by
  rw [isLive_iff_windows, List.all_eq_true]
  exact and_iff_left (hs.sound.grounded loan hloan)

/-- What a loan that gets stranded lends is still lent, and cannot be named. -/
theorem lost_of_strands {config : Config} (hs : Reachable config s) (h : s.strands op id = true) :
    ∃ loan ∈ (s.step op).2.ledger.loans, loan.id = id ∧ ∃ w ∈ loan.source.windows, (s.step op).2.splits.has w = false := by
  cases op with
  | scopeEnd scope =>
    obtain ⟨hrun, hcloses, loan, hloan, hid, houtlasts, w, hw, hlost⟩ := strands_scopeEnd_iff.mp h
    refine ⟨loan, ?_, hid, w, hw, ?_⟩
    · obtain ⟨stopped, hstep⟩ := s.step_running hrun (.scopeEnd scope)
      have hleft : (s.refreshed.endScope scope).2.ledger.loans = s.refreshed.ledger.loans.filter (s.outlasts scope) :=
        (loans_endScope hs.refreshed_disciplined hs.placed scope).trans (if_pos hcloses)
      rw [hstep]
      change loan ∈ (s.refreshed.endScope scope).2.ledger.loans
      rw [hleft]
      exact List.mem_filter.mpr ⟨hloan, houtlasts⟩
    · rw [splits_step hs hrun, splitsAfter, if_pos hcloses]
      exact hlost
  | _ => exact Bool.noConfusion h

/-- **What is lent can be named** unless the loan is stranded. As long as no scope has closed that the loan outlasted and
that had made the only split for one of its windows, every window comes from a split in force, and the source of the loan
is usable. Where this happens the source is lent on under a name that is not known any more. -/
theorem lent_windows_split_unless_stranded (config : Config) (id : LoanId) :
    (∀ s, Later (fun t op => t.strands op id = false) { config } s → ∀ loan ∈ s.ledger.loans, loan.id = id →
      (∀ w ∈ loan.source.windows, s.splits.has w = true) ∧ s.checkPath loan.source = .ok () ∧
        s.isLive loan.source = true) ∧
    (∀ s op, Reachable config s → s.strands op id = true → ∃ loan ∈ (s.step op).2.ledger.loans, loan.id = id ∧
      (∃ w ∈ loan.source.windows, (s.step op).2.splits.has w = false) ∧
        (s.step op).2.checkPath loan.source = .error (.about .unknownPath loan.source)) := by
  refine ⟨fun s hlater loan hloan hid => ?_, fun s op hs hstrands => ?_⟩
  · have hwindows := hlater.backed loan hloan hid
    have hlive := (isLive_source_iff hlater.reachable hloan).mpr hwindows
    exact ⟨hwindows, (checkLive_eq_ok_iff.mp (isLive_iff.mp hlive)).1, hlive⟩
  · obtain ⟨loan, hloan, hid, w, hw, hlost⟩ := lost_of_strands hs hstrands
    refine ⟨loan, hloan, hid, ⟨w, hw, hlost⟩, ?_⟩
    rw [checkPath, if_neg]
    rw [Bool.and_eq_true, List.all_eq_true]
    exact fun hpath => Bool.false_ne_true (hlost.symm.trans (hpath.2 w hw))

/-- The half of an array that is lent to the outermost scope is split in a scope further in. It stays split while a third
scope closes, and is lost with the scope of the split. -/
theorem window_lent_beyond_inner_scope :
    let opened := (({} : Session).stepAll [.bindFreshMut (.var ⟨0⟩), .bindFreshMut (.var ⟨1⟩), .scopeBegin ⟨1⟩,
      .split (.var ⟨0⟩) 2, .borrowExclusive ⟨⟨0⟩, [.subslice 0 (some 2)]⟩ (.var ⟨1⟩) (.scope .root), .scopeBegin ⟨2⟩]).2
    let s := (opened.step (.scopeEnd ⟨2⟩)).2
    (∃ loan ∈ s.ledger.loans, loan.id = ⟨0⟩ ∧ s.isLive loan.source = true) ∧
    ∃ loan ∈ (s.step (.scopeEnd ⟨1⟩)).2.ledger.loans, loan.id = ⟨0⟩ ∧
      (s.step (.scopeEnd ⟨1⟩)).2.checkPath loan.source = .error (.about .unknownPath loan.source) := by
  intro opened s
  have hopened : Later (fun t op => t.strands op ⟨0⟩ = false) {} opened := by
    refine Later.refl.stepAll fun u op hop => ?_
    simp only [List.mem_cons, List.not_mem_nil, or_false] at hop
    rcases hop with rfl | rfl | rfl | rfl | rfl | rfl
    all_goals rfl
  have hkept : Later (fun t op => t.strands op ⟨0⟩ = false) {} s := hopened.step (by decide)
  have hlent : ∃ loan ∈ s.ledger.loans, loan.id = ⟨0⟩ := by decide
  have hstrands : s.strands (.scopeEnd ⟨1⟩) ⟨0⟩ = true := by decide
  obtain ⟨hsplit, hlost⟩ := lent_windows_split_unless_stranded {} ⟨0⟩
  obtain ⟨loan, hloan, hid⟩ := hlent
  obtain ⟨gone, hgone, hgoneId, -, hpath⟩ := hlost s _ hkept.reachable hstrands
  exact ⟨⟨loan, hloan, hid, (hsplit s hkept loan hloan hid).2.2⟩, gone, hgone, hgoneId, hpath⟩

/-- Every scope that was opened is closed and no operation is turned down, and the half of the array that is lent at the
end cannot be named. -/
theorem window_lent_beyond_its_split :
    let half : Place := ⟨⟨0⟩, [.subslice 0 (some 2)]⟩
    let ops : List Operation := [.bindFreshMut (.var ⟨0⟩), .bindFreshMut (.var ⟨1⟩), .scopeBegin ⟨1⟩, .split (.var ⟨0⟩) 2,
      .borrowExclusive half (.var ⟨1⟩) (.scope .root), .scopeEnd ⟨1⟩]
    let s := (({} : Session).run ops).2
    (({} : Session).run ops).1 = [.ok, .ok, .ok, .ok, .ok, .ok] ∧ s.ledger.loans.map (·.source) = [half] ∧
    half.windows = [⟨.var ⟨0⟩, 0, some 2⟩] ∧ s.splits.has ⟨.var ⟨0⟩, 0, some 2⟩ = false ∧
    s.checkPath half = .error (.about .unknownPath half) ∧ s.isLive half = false := by
  decide

end Session

end BorrowChecker
