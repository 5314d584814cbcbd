import BorrowChecker.Proofs.Atomicity

/-!
# The turnover of loans

What an operation does to the list of live loans, as one equation (`loans_apply`): every loan meets its fate, which is
to end, to be handed on to another holder or to stay as it is, and a borrow enters a new loan at the end. The loans that
end are those held at or inside a place that is released or vacated, and, when a scope closes, those tied to it and those
that are held by its variables or lend them. The only loans that are handed on are the ones held by a variable known to
hold a reference, when its value moves into a binding. An operation that is turned down leaves the loans alone
(`loans_apply_of_not`).
-/

namespace BorrowChecker

theorem Place.isPrefixOf_eq_of_isVar {p : Place} (h : p.isVar = true) (q : Place) :
    p.isPrefixOf q = (p.root == q.root) := by
  rw [isPrefixOf, isVar_iff.mp h, List.isPrefixOf_nil_left, Bool.and_true]

/-- Moving a whole variable that is live, the target of a declaration that succeeds belongs to another variable. -/
theorem Store.root_ne_of_declare {store store' : Store} {p target : Place} {request : DeclareRequest}
    (hvar : p.isVar = true) (hlive : store.Live p) (hdeclare : store.declare target request = .ok store') :
    target.root ≠ p.root := by
  intro hroot
  obtain ⟨halive, hretired⟩ := live_iff.mp hlive
  rcases declare_eq_ok_iff.mp hdeclare with ⟨-, hdeclared⟩ | ⟨-, hput⟩
  · have hdead : ¬ store.Alive target.root := (declareVar_eq_ok_iff.mp hdeclared).1
    rw [hroot] at hdead
    exact hdead halive
  · -- something inside the target has been moved out, and so out of the variable
    obtain ⟨-, -, ⟨r, hr, hinside⟩, -⟩ := reinitialise_eq_ok_iff.mp hput
    have hoverlap : r.overlaps p = true := by
      rw [Place.overlaps_comm, Place.overlaps_of_isVar hvar, ← hroot, Place.root_eq_of_isPrefixOf hinside,
        beq_self_eq_true]
    rw [hretired r hr] at hoverlap
    exact Bool.noConfusion hoverlap

/-! ## The registry -/

namespace Registry

variable {r : Registry}

theorem loans_releaseHeldBy (h : r.ledger.Disciplined) (holder : Place) :
    (r.releaseHeldBy holder).ledger.loans = r.ledger.loans.filter (!holder.isPrefixOf ·.holder) := by
  rw [releaseHeldBy, h.snd_releaseHeldBy]

theorem loans_withdraw (h : r.ledger.Disciplined) (p : Place) :
    (r.withdraw p).ledger.loans = r.ledger.loans.filter (!p.isPrefixOf ·.holder) := by
  rw [withdraw, ledger_retire, loans_releaseHeldBy h]

/-- Whatever the numbers of the loans, none is left that is held in a place that is vacated. -/
theorem not_held_of_mem_withdraw {p : Place} {loan : Loan} (h : loan ∈ (r.withdraw p).ledger.loans) :
    loan ∈ r.ledger.loans ∧ p.isPrefixOf loan.holder = false := by
  rw [withdraw, ledger_retire] at h
  exact Ledger.not_held_of_mem_releaseHeldBy h

theorem disciplined_foldl_releaseHeldBy (h : r.ledger.Disciplined) (holders : List Place) :
    (holders.foldl releaseHeldBy r).ledger.Disciplined := by
  induction holders generalizing r with
  | nil => exact h
  | cons holder holders ih => exact ih (h.releaseWhere _)

theorem loans_foldl_releaseHeldBy (h : r.ledger.Disciplined) (holders : List Place) :
    (holders.foldl releaseHeldBy r).ledger.loans =
      r.ledger.loans.filter fun loan => holders.all (!·.isPrefixOf loan.holder) := by
  induction holders generalizing r with
  | nil => simp
  | cons holder holders ih =>
    have hnext : (r.releaseHeldBy holder).ledger.Disciplined := h.releaseWhere _
    rw [List.foldl_cons, ih hnext, loans_releaseHeldBy h, List.filter_filter]
    refine List.filter_congr fun loan _ => ?_
    rw [List.all_cons, Bool.and_comm]

theorem loans_bury (h : r.ledger.Disciplined) (p : Place) :
    (r.bury p).2.ledger.loans =
      r.ledger.loans.filter fun loan => !loan.source.overlaps p && !p.isPrefixOf loan.holder := by
  have hreleased := h.releaseEach (r.ledger.lentIds p)
  rw [ledger_bury, hreleased.snd_releaseHeldBy, h.loans_releaseEach_lentIds, List.filter_filter]
  exact List.filter_congr fun loan _ => Bool.and_comm _ _

theorem loans_buryAll (h : r.ledger.Disciplined) (ps : List Place) :
    (r.buryAll ps).2.ledger.loans =
      r.ledger.loans.filter fun loan => ps.all fun p => !loan.source.overlaps p && !p.isPrefixOf loan.holder := by
  induction ps generalizing r with
  | nil => simp [buryAll]
  | cons p ps ih =>
    have hrest : (r.buryAll (p :: ps)).2 = ((r.bury p).2.buryAll ps).2 := rfl
    rw [hrest, ih (disciplined_bury h p), loans_bury h, List.filter_filter]
    refine List.filter_congr fun loan _ => ?_
    rw [List.all_cons, Bool.and_comm]

end Registry

namespace Session

variable {s : Session} {op : Operation}

/-! ## Scopes -/

/-- Whether closing the scope is in order: it is the innermost one, and not the outermost. -/
def closes (s : Session) (id : ScopeId) : Bool := id != .root && s.currentScope == id

theorem closes_iff {id : ScopeId} : s.closes id = true ↔ id ≠ .root ∧ s.currentScope = id := by
  rw [closes, Bool.and_eq_true, bne_iff_ne, beq_iff_eq]

theorem endScope_of_closes {id : ScopeId} (h : s.closes id = true) :
    s.endScope id = (((s.unwound id).buryAll (s.dying id)).1,
      { s with registry := ((s.unwound id).buryAll (s.dying id)).2, scopes := s.scopes.tail }) := by
  obtain ⟨hroot, hcurrent⟩ := closes_iff.mp h
  rcases s.endScope_cases id with ⟨hunbalanced, -⟩ | ⟨-, -, hclosed⟩
  · exact (hunbalanced.elim hroot fun hother => hother hcurrent).elim
  · exact hclosed

theorem endScope_of_not_closes {id : ScopeId} (h : ¬ s.closes id = true) : s.endScope id = (some .unbalanced, s) := by
  rcases s.endScope_cases id with ⟨-, hsame⟩ | ⟨hroot, hcurrent, -⟩
  · exact hsame
  · exact absurd (closes_iff.mpr ⟨hroot, hcurrent⟩) h

/-- Whether a loan has nothing to do with a scope that closes: it is not tied to it, and neither lends one of its
variables nor is held by one. -/
def outlasts (s : Session) (id : ScopeId) (loan : Loan) : Bool :=
  loan.region != .scope id && (s.dying id).all fun p => p.root != loan.source.root && p.root != loan.holder.root

theorem outlasts_iff {id : ScopeId} {loan : Loan} :
    s.outlasts id loan = true ↔
      loan.region ≠ .scope id ∧ ∀ p ∈ s.dying id, p.root ≠ loan.source.root ∧ p.root ≠ loan.holder.root := by
  simp only [outlasts, Bool.and_eq_true, List.all_eq_true, bne_iff_ne]

theorem isVar_of_mem_dying (hplaced : s.store.Placed) {id : ScopeId} {p : Place} (h : p ∈ s.dying id) :
    p.isVar = true := by
  obtain ⟨decl, hdecl, rfl⟩ := List.mem_map.mp h
  exact hplaced.isVar (List.mem_map_of_mem (List.mem_of_mem_filter (List.mem_reverse.mp hdecl)))

theorem disciplined_unwound (h : s.ledger.Disciplined) (id : ScopeId) : (s.unwound id).ledger.Disciplined :=
  Registry.disciplined_foldl_releaseHeldBy (h.releaseWhere _) (s.dying id)

theorem loans_unwound (h : s.ledger.Disciplined) (id : ScopeId) :
    (s.unwound id).ledger.loans =
      s.ledger.loans.filter fun loan =>
        loan.region != .scope id && (s.dying id).all (!·.isPrefixOf loan.holder) := by
  have hreleased : (s.unwound id).ledger.loans =
      ((s.dying id).foldl Registry.releaseHeldBy (s.registry.releaseScope id)).ledger.loans := rfl
  have hscope : (s.registry.releaseScope id).ledger.Disciplined := h.releaseWhere _
  rw [hreleased, Registry.loans_foldl_releaseHeldBy hscope, Registry.releaseScope, Ledger.releaseScope,
    Ledger.snd_releaseWhere, List.filter_filter]
  exact List.filter_congr fun loan _ => Bool.and_comm _ _

/-- The loans that are left when a scope is closed are those that outlast it. -/
theorem loans_endScope (h : s.ledger.Disciplined) (hplaced : s.store.Placed) (id : ScopeId) :
    (s.endScope id).2.ledger.loans =
      if s.closes id then s.ledger.loans.filter (s.outlasts id) else s.ledger.loans := by
  split
  next hcloses =>
    have hburied : (s.endScope id).2.ledger.loans = ((s.unwound id).buryAll (s.dying id)).2.ledger.loans := by
      rw [endScope_of_closes hcloses]
      rfl
    rw [hburied, Registry.loans_buryAll (disciplined_unwound h id), loans_unwound h, List.filter_filter]
    refine List.filter_congr fun loan _ => ?_
    rw [Bool.eq_iff_iff, outlasts]
    simp only [Bool.and_eq_true, List.all_eq_true]
    -- for a whole variable, overlap and being on the way come down to the variable
    have hvar : ∀ p ∈ s.dying id,
        ((!loan.source.overlaps p) = true ↔ (p.root != loan.source.root) = true) ∧
        ((!p.isPrefixOf loan.holder) = true ↔ (p.root != loan.holder.root) = true) := by
      intro p hp
      have hpvar := isVar_of_mem_dying hplaced hp
      rw [Place.overlaps_comm, Place.overlaps_of_isVar hpvar, Place.isPrefixOf_eq_of_isVar hpvar]
      exact ⟨Iff.rfl, Iff.rfl⟩
    constructor
    · rintro ⟨hall, hregion, -⟩
      exact ⟨hregion, fun p hp => ⟨(hvar p hp).1.mp (hall p hp).1, (hvar p hp).2.mp (hall p hp).2⟩⟩
    · rintro ⟨hregion, hall⟩
      refine ⟨fun p hp => ⟨(hvar p hp).1.mpr (hall p hp).1, (hvar p hp).2.mpr (hall p hp).2⟩, hregion, fun p hp => ?_⟩
      exact (hvar p hp).2.mpr (hall p hp).2
  next hcloses => rw [endScope_of_not_closes hcloses]

/-! ## Fates -/

/-- The place that an initial value is moved out of, if it can be. -/
def movedFrom? (s : Session) : Init → Option Place
  | .fresh => none
  | .move source => some source
  | .copy source => if (s.factsOf source).duplicable then none else some source

theorem movedFrom?_of_checkInit {init : Init} {source : Option Place} (h : s.checkInit init = .ok source) :
    s.movedFrom? init = source := by
  cases init with
  | fresh =>
    cases h
    rfl
  | move p =>
    obtain ⟨_, -, rfl⟩ := map_eq_ok_iff.mp h
    rfl
  | copy p =>
    obtain ⟨moves, hcopy, rfl⟩ := map_eq_ok_iff.mp h
    rcases checkCopy_eq_ok_iff.mp hcopy with ⟨hdup, rfl, -⟩ | ⟨hdup, rfl, -⟩
    · simp [movedFrom?, hdup]
    · simp [movedFrom?, hdup]

theorem live_of_checkInit {init : Init} {p : Place} (h : s.checkInit init = .ok (some p)) : s.store.Live p := by
  have hmoved : s.checkMove p = .ok () → s.store.Live p := fun hmove =>
    (checkLive_eq_ok_iff.mp (checkAccess_eq_ok_iff.mp (checkMove_eq_ok_iff.mp hmove).1).1).2
  rcases checkInit_eq_ok_some_iff.mp h with ⟨-, hmove⟩ | ⟨-, hcopy⟩
  · exact hmoved hmove
  · rcases checkCopy_eq_ok_iff.mp hcopy with ⟨-, hmoves, -⟩ | ⟨-, -, hmove⟩
    · exact Bool.noConfusion hmoves
    · exact hmoved hmove

theorem isVar_of_heldKind? {p : Place} (h : (s.heldKind? p).isSome = true) : p.isVar = true := by
  by_contra hpart
  rw [heldKind?, if_neg hpart] at h
  exact Bool.noConfusion h

/-- Ends a loan that is held at or inside a place. -/
def endHeldBy (p : Place) (loan : Loan) : Option Loan := if p.isPrefixOf loan.holder then none else some loan

/-- What an operation makes of a live loan when it goes through. -/
def fate (s : Session) : Operation → Loan → Option Loan
  | .scopeEnd id, loan => if s.closes id && !s.outlasts id loan then none else some loan
  | .bind target init _ _ _, loan =>
    match s.movedFrom? init with
    | none => some loan
    | some p =>
      if loan.holder = p ∧ (s.heldKind? p).isSome then some { loan with holder := target } else endHeldBy p loan
  | .move p, loan => endHeldBy p loan
  | .drop p, loan => endHeldBy p loan
  | .release p, loan => endHeldBy p loan
  | .copy p, loan => if (s.factsOf p).duplicable then some loan else endHeldBy p loan
  | _, loan => some loan

/-- An operation may hand a loan on to another holder, and changes nothing else about it. -/
theorem eq_of_fate {loan loan' : Loan} (h : s.fate op loan = some loan') :
    loan' = { loan with holder := loan'.holder } := by
  have hend : ∀ p, endHeldBy p loan = some loan' → loan' = loan := by
    intro p hp
    rw [endHeldBy] at hp
    split at hp
    · exact absurd hp (by simp)
    · exact (Option.some.inj hp).symm
  have hsame : loan' = loan → loan' = { loan with holder := loan'.holder } := by
    rintro rfl
    rfl
  cases op with
  | scopeEnd id =>
    rw [fate] at h
    split at h
    · exact absurd h (by simp)
    · exact hsame (Option.some.inj h).symm
  | bind target init mutable perms facts =>
    rw [fate] at h
    split at h
    · exact hsame (Option.some.inj h).symm
    · split at h
      · cases h
        rfl
      · exact hsame (hend _ h)
  | move p => exact hsame (hend p h)
  | drop p => exact hsame (hend p h)
  | release p => exact hsame (hend p h)
  | copy p =>
    rw [fate] at h
    split at h
    · exact hsame (Option.some.inj h).symm
    · exact hsame (hend p h)
  | _ => exact hsame (Option.some.inj h).symm

/-- The loans that an operation enters when it goes through. -/
def entered (s : Session) : Operation → List Loan
  | .borrow source kind holder region =>
    (s.regionStop? region).toList.map fun stop =>
      { source, kind, holder, region, stop, created := s.next, id := ⟨s.ledger.nextId⟩ }
  | _ => []

/-- A new loan gets a number that no loan has had. -/
theorem id_of_mem_entered {loan : Loan} (h : loan ∈ s.entered op) : loan.id = ⟨s.ledger.nextId⟩ := by
  cases op with
  | borrow source kind holder region =>
    obtain ⟨stop, -, rfl⟩ := List.mem_map.mp h
    rfl
  | _ => exact absurd h List.not_mem_nil

theorem filterMap_endHeldBy (p : Place) (loans : List Loan) :
    loans.filterMap (endHeldBy p) = loans.filter (!p.isPrefixOf ·.holder) := by
  rw [← List.filterMap_eq_filter]
  congr 1
  funext loan
  rw [endHeldBy, Option.guard]
  cases p.isPrefixOf loan.holder <;> rfl

theorem filterMap_eq_self {f : Loan → Option Loan} {loans : List Loan} (h : ∀ loan, f loan = some loan) :
    loans.filterMap f = loans := by
  rw [funext h, List.filterMap_some]

/-- Whether an operation acts on the loans: it goes through, or it ends a scope, which it does even at fault. -/
def TakesEffect (s : Session) (op : Operation) : Prop := (s.apply op).1 = none ∨ ∃ id, op = .scopeEnd id

/-! ## One operation at a time -/

theorem loans_bind (hledger : s.ledger.Disciplined) {target : Place} {init : Init} {mutable : Bool} {perms : PermSet}
    {facts : TypeFacts} (h : (s.bind target init mutable perms facts).1 = none) :
    (s.bind target init mutable perms facts).2.ledger.loans =
      s.ledger.loans.filterMap (s.fate (.bind target init mutable perms facts)) := by
  obtain ⟨source, store, hinit, hstore, hbind⟩ := bind_accepted h
  have hmoved : s.movedFrom? init = source := movedFrom?_of_checkInit hinit
  rw [hbind]
  cases source with
  | none =>
    rw [filterMap_eq_self fun loan => by simp only [fate, hmoved]]
    rfl
  | some p =>
    cases hheld : (s.heldKind? p).isSome with
    | false =>
      have hfate : s.fate (.bind target init mutable perms facts) = endHeldBy p := by
        funext loan
        simp [fate, hmoved, hheld]
      rw [hfate, filterMap_endHeldBy]
      have hrelocate : (some p : Option Place).bind s.heldKind? = s.heldKind? p := rfl
      simp only [Option.elim_some, hrelocate, hheld]
      have hentered : ({ s.registry.enter target with store } : Registry).ledger.Disciplined := hledger
      exact Registry.loans_withdraw hentered p
    | true =>
      -- what is handed on ends up with another variable, so it does not end with the loans left behind
      have hvar : p.isVar = true := isVar_of_heldKind? hheld
      have htarget : p.isPrefixOf target = false := by
        rw [Place.isPrefixOf_eq_of_isVar hvar, beq_eq_false_iff_ne]
        exact (Store.root_ne_of_declare hvar (live_of_checkInit hinit) hstore).symm
      have hrelocate : (some p : Option Place).bind s.heldKind? = s.heldKind? p := rfl
      simp only [Option.elim_some, hrelocate, hheld]
      have hloans : (Registry.relocate { s.registry.enter target with store } p target true).ledger.loans =
          (s.ledger.transfer p target).2.loans.filter (!p.isPrefixOf ·.holder) :=
        Registry.loans_withdraw (hledger.transfer p target) p
      refine hloans.trans ?_
      rw [← List.filterMap_eq_filter, Ledger.transfer, List.filterMap_map]
      congr 1
      funext loan
      simp only [Function.comp_apply, fate, hmoved, hheld, and_true, endHeldBy, Option.guard]
      by_cases hholder : loan.holder = p
      · simp [hholder, htarget]
      · cases hinside : p.isPrefixOf loan.holder <;> simp [hholder, hinside]

theorem loans_borrow {source holder : Place} {kind : BorrowKind} {region : Region}
    (h : (s.borrow source kind holder region).1 = none) :
    (s.borrow source kind holder region).2.ledger.loans =
      s.ledger.loans ++ s.entered (.borrow source kind holder region) := by
  obtain ⟨stop, id, ledger, hcheck, hlend, hprepare⟩ := borrow_accepted h
  have hstop : s.regionStop? region = some stop := (checkBorrow_eq_ok_iff.mp hcheck).1
  obtain ⟨-, -, rfl, rfl⟩ := Ledger.borrow_eq_ok_iff.mp hlend
  rw [entered, hstop]
  rcases (prepareHolder_cases hprepare).2 with ⟨-, -, hborrow⟩ | ⟨-, store, -, hborrow⟩ | ⟨-, store, -, hborrow⟩
  all_goals
    rw [hborrow]
    rfl

theorem loans_apply (hledger : s.ledger.Disciplined) (hplaced : s.store.Placed) (h : s.TakesEffect op) :
    (s.apply op).2.ledger.loans = s.ledger.loans.filterMap (s.fate op) ++ s.entered op := by
  -- a guarded operation that keeps the ledger or withdraws a place
  have hguarded : ∀ {α : Type} {check : Except Fault α} {change : α → Registry} {f : Loan → Option Loan},
      (s.guarded check change).1 = none →
      (∀ a, check = .ok a → (change a).ledger.loans = s.ledger.loans.filterMap f) →
      (s.guarded check change).2.ledger.loans = s.ledger.loans.filterMap f ++ [] := by
    intro α check change f hok hchange
    obtain ⟨a, hcheck, hresult⟩ := guarded_accepted hok
    rw [hresult, List.append_nil]
    exact hchange a hcheck
  have hkeep : ∀ op, (∀ loan, s.fate op loan = some loan) → s.ledger.loans = s.ledger.loans.filterMap (s.fate op) :=
    fun op hfate => (filterMap_eq_self hfate).symm
  have hwithdraw : ∀ p, (s.registry.withdraw p).ledger.loans = s.ledger.loans.filterMap (endHeldBy p) := by
    intro p
    rw [filterMap_endHeldBy]
    exact Registry.loans_withdraw hledger p
  cases op with
  | scopeEnd id =>
    change (s.endScope id).2.ledger.loans = s.ledger.loans.filterMap (s.fate (.scopeEnd id)) ++ []
    rw [loans_endScope hledger hplaced, List.append_nil]
    split
    next hcloses =>
      rw [← List.filterMap_eq_filter]
      congr 1
      funext loan
      cases houtlasts : s.outlasts id loan <;> simp [fate, hcloses, Option.guard, houtlasts]
    next hcloses => exact hkeep _ fun loan => by simp [fate, hcloses]
  | scopeBegin id =>
    have hloans : (s.apply (.scopeBegin id)).2.ledger.loans = s.ledger.loans := by
      rcases s.beginScope_cases id with hbegin | ⟨-, hbegin⟩
      · rw [apply, hbegin]
      · rw [apply, hbegin]
        rfl
    change _ = s.ledger.loans.filterMap (s.fate (.scopeBegin id)) ++ []
    rw [hloans, List.append_nil]
    exact hkeep _ fun _ => rfl
  | bind target init mutable perms facts =>
    have hok := h.resolve_right (by simp)
    exact (loans_bind hledger hok).trans (List.append_nil _).symm
  | borrow source kind holder region =>
    have hok := h.resolve_right (by simp)
    rw [← hkeep (.borrow source kind holder region) fun _ => rfl]
    exact loans_borrow hok
  | project p facts =>
    refine hguarded (h.resolve_right (by simp)) fun _ _ => ?_
    refine Eq.trans ?_ (hkeep _ fun _ => rfl)
    split
    · rfl
    · rw [Registry.registerFacts]
      split <;> rfl
  | move p => exact hguarded (h.resolve_right (by simp)) fun _ _ => hwithdraw p
  | drop p => exact hguarded (h.resolve_right (by simp)) fun _ _ => hwithdraw p
  | release p =>
    refine hguarded (h.resolve_right (by simp)) fun _ _ => ?_
    rw [show s.fate (.release p) = endHeldBy p from rfl, filterMap_endHeldBy]
    exact Registry.loans_releaseHeldBy hledger p
  | copy p =>
    refine hguarded (h.resolve_right (by simp)) fun moves hcheck => ?_
    rcases checkCopy_eq_ok_iff.mp hcheck with ⟨hdup, rfl, -⟩ | ⟨hdup, rfl, -⟩
    · exact hkeep _ fun loan => by simp [fate, hdup]
    · have hfate : s.fate (.copy p) = endHeldBy p := by
        funext loan
        simp [fate, hdup]
      rw [hfate]
      exact hwithdraw p
  | mutate p => exact hguarded (h.resolve_right (by simp)) fun _ _ => hkeep _ fun _ => rfl
  | access p needs => exact hguarded (h.resolve_right (by simp)) fun _ _ => hkeep _ fun _ => rfl
  | split array boundary => exact hguarded (h.resolve_right (by simp)) fun _ _ => hkeep _ fun _ => rfl
  | unchecked p => exact (hkeep (.unchecked p) fun _ => rfl).trans (List.append_nil _).symm

theorem loans_apply_of_not (hledger : s.ledger.Disciplined) (h : ¬ s.TakesEffect op) :
    (s.apply op).2.ledger.loans = s.ledger.loans := by
  obtain ⟨hfault, hop⟩ := not_or.mp h
  obtain ⟨fault, hfault⟩ := Option.ne_none_iff_exists'.mp hfault
  exact (apply_refused hledger hfault fun id hid => absurd ⟨id, hid⟩ hop).loans

theorem Reachable.refreshed_disciplined {config : Config} (h : Reachable config s) : s.refreshed.ledger.Disciplined :=
  h.sound.disciplined.releaseWhere (Ledger.expired s.next)

theorem loans_refreshed (s : Session) :
    s.refreshed.ledger.loans = s.ledger.loans.filter (!Ledger.expired s.next ·) :=
  congrArg Ledger.loans (Ledger.snd_releaseWhere s.ledger _)

theorem mem_refreshed_iff {loan : Loan} :
    loan ∈ s.refreshed.ledger.loans ↔ loan ∈ s.ledger.loans ∧ Ledger.expired s.next loan = false := by
  rw [loans_refreshed, List.mem_filter, Bool.not_eq_true']

/-! ## Steps -/

theorem loans_step_cases {config : Config} (hs : Reachable config s) (hrun : s.stopped = false) (op : Operation) :
    (s.refreshed.TakesEffect op ∧
      (s.step op).2.ledger.loans = s.refreshed.ledger.loans.filterMap (s.refreshed.fate op) ++ s.refreshed.entered op) ∨
    (¬ s.refreshed.TakesEffect op ∧ (s.step op).2.ledger.loans = s.refreshed.ledger.loans) := by
  obtain ⟨stopped, hstep⟩ := s.step_running hrun op
  rw [hstep]
  by_cases heffect : s.refreshed.TakesEffect op
  · exact Or.inl ⟨heffect, loans_apply hs.refreshed_disciplined hs.placed heffect⟩
  · exact Or.inr ⟨heffect, loans_apply_of_not hs.refreshed_disciplined heffect⟩

/-- A loan that is live after a step was live before it, maybe with another holder, and has not run out, or is new. -/
theorem mem_loans_step {config : Config} (hs : Reachable config s) (hrun : s.stopped = false) {loan : Loan}
    (hloan : loan ∈ (s.step op).2.ledger.loans) :
    (∃ old ∈ s.refreshed.ledger.loans, loan = { old with holder := loan.holder }) ∨ loan ∈ s.refreshed.entered op := by
  rcases loans_step_cases hs hrun op with ⟨-, hloans⟩ | ⟨-, hloans⟩
  · rw [hloans] at hloan
    rcases List.mem_append.mp hloan with hkept | hnew
    · obtain ⟨old, hold, hfate⟩ := List.mem_filterMap.mp hkept
      exact Or.inl ⟨old, hold, eq_of_fate hfate⟩
    · exact Or.inr hnew
  · rw [hloans] at hloan
    exact Or.inl ⟨loan, hloan, rfl⟩

end Session

end BorrowChecker
