import BorrowChecker.Proofs.Schedule

/-!
# Scope discipline

Everything that is alive lives in a scope that is open. The open scopes form a stack of different scopes with the
outermost one at the bottom. Live variables and splits belong to scopes of the stack, and the holder of a loan is part of
a live variable (`Registry.Housed`). An operation declares and cuts in the innermost scope only, so its revisions keep
this; what belongs to a scope that closes is buried with it, so it holds of the scopes that are left as well.

A loan for a span of operations is made at the start of the span, and it is gone when an operation after the span is
checked. Which operations have been checked is told by the verdicts (`Recorded`).
-/

namespace BorrowChecker

/-! ## Scopes of declarations -/

namespace Store

variable {store store' : Store} {p : Place} {x : Symbol} {scope : ScopeId} {decl : Declaration}

theorem mem_decls_of_declare {request : DeclareRequest} (h : store.declare p request = .ok store')
    (hdecl : decl ∈ store'.decls) : decl ∈ store.decls ∨ decl.scope = request.scope := by
  rcases declare_eq_ok_iff.mp h with ⟨-, hvar⟩ | ⟨-, hpart⟩
  · obtain ⟨-, rfl⟩ := declareVar_eq_ok_iff.mp hvar
    rcases List.mem_append.mp hdecl with hold | hnew
    · exact Or.inl (List.mem_of_mem_filter hold)
    · rw [List.mem_singleton.mp hnew]
      exact Or.inr rfl
  · obtain ⟨-, -, -, rfl⟩ := reinitialise_eq_ok_iff.mp hpart
    exact Or.inl hdecl

theorem exists_of_mem_decls_assignHolder {kind : BorrowKind} (h : store.assignHolder x kind = .ok store')
    (hdecl : decl ∈ store'.decls) : ∃ old ∈ store.decls, decl.live = old.live ∧ decl.scope = old.scope := by
  obtain ⟨-, rfl⟩ := assignHolder_eq_ok_iff.mp h
  obtain ⟨old, hold, rfl⟩ := List.mem_map.mp hdecl
  refine ⟨old, hold, ?_⟩
  split
  · exact ⟨rfl, rfl⟩
  · exact ⟨rfl, rfl⟩

/-- A declaration that is live after a place has been moved out was so before, and is not that of the place. -/
theorem mem_decls_of_retire (hdecl : decl ∈ (store.retire p).decls) (hlive : decl.live = true) :
    decl ∈ store.decls ∧ ¬ (p.isVar = true ∧ decl.name = p.root) := by
  rw [retire] at hdecl
  split at hdecl
  next hvar =>
    obtain ⟨old, hold, rfl⟩ := List.mem_map.mp hdecl
    split at hlive
    next => exact Bool.noConfusion hlive
    next hname =>
      rw [if_neg hname]
      exact ⟨hold, fun h => hname h.2⟩
  next hvar => exact ⟨hdecl, fun h => hvar h.1⟩

/-- What is declared, or put back into a part of a variable, is alive. -/
theorem alive_root_of_declare {request : DeclareRequest} (h : store.declare p request = .ok store') :
    store'.Alive p.root := by
  rcases declare_eq_ok_iff.mp h with ⟨-, hvar⟩ | ⟨-, hpart⟩
  · exact alive_iff.mpr ⟨_, find?_declareVar_self hvar, rfl⟩
  · obtain ⟨⟨decl, hfind, hlive, -⟩, -, -, rfl⟩ := reinitialise_eq_ok_iff.mp hpart
    exact alive_iff.mpr ⟨decl, hfind, hlive⟩

namespace Stores

variable {request : LoanRequest}

theorem alive_holder (h : store.Stores scope request store') : store'.Alive request.holder.root := by
  cases h with
  | part _ halive => exact halive
  | assign _ hassign =>
    obtain ⟨decl, hfind, hlive, -⟩ := find?_assignHolder hassign
    exact alive_iff.mpr ⟨decl, hfind, hlive⟩
  | declare _ _ _ hdeclare => exact alive_root_of_declare hdeclare

theorem alive (h : store.Stores scope request store') (halive : store.Alive x) : store'.Alive x := by
  cases h with
  | part => exact halive
  | assign _ hassign => exact (alive_assignHolder hassign).mpr halive
  | declare _ _ _ hdeclare => exact alive_of_declare hdeclare halive

theorem exists_of_mem_decls (h : store.Stores scope request store') (hdecl : decl ∈ store'.decls) :
    (∃ old ∈ store.decls, decl.live = old.live ∧ decl.scope = old.scope) ∨ decl.scope = scope := by
  cases h with
  | part => exact Or.inl ⟨decl, hdecl, rfl, rfl⟩
  | assign _ hassign => exact Or.inl (exists_of_mem_decls_assignHolder hassign hdecl)
  | declare _ hscope _ hdeclare =>
    rcases mem_decls_of_declare hdeclare hdecl with hold | hnew
    · exact Or.inl ⟨decl, hold, rfl, rfl⟩
    · exact Or.inr (hnew.trans hscope)

end Stores

end Store

/-! ## Housed registries -/

namespace Registry

variable {isOpen isOpen' : ScopeId → Prop} {scope : ScopeId} {r r' : Registry}

theorem splits_withdraw (r : Registry) (p : Place) : (r.withdraw p).splits = r.splits := by
  rw [withdraw, retire]
  split <;> rfl

/-- What is alive has a place to be: live variables and splits belong to open scopes, and loans are held by live
variables. -/
structure Housed (isOpen : ScopeId → Prop) (r : Registry) : Prop where
  declared : ∀ decl ∈ r.store.decls, decl.live = true → isOpen decl.scope
  cut : ∀ split ∈ r.splits.records, isOpen split.scope
  held : ∀ loan ∈ r.ledger.loans, r.store.Alive loan.holder.root

namespace Housed

theorem mono (h : r.Housed isOpen) (himp : ∀ id, isOpen id → isOpen' id) : r.Housed isOpen' where
  declared decl hdecl hlive := himp _ (h.declared decl hdecl hlive)
  cut split hsplit := himp _ (h.cut split hsplit)
  held := h.held

theorem depart (h : r.Housed isOpen) {ledger : Ledger} (hsub : ledger.loans.Sublist r.ledger.loans) :
    { r with ledger }.Housed isOpen where
  declared := h.declared
  cut := h.cut
  held loan hloan := h.held loan (hsub.subset hloan)

theorem declare (h : r.Housed isOpen) (hopen : isOpen scope) {p : Place} {request : DeclareRequest} {store : Store}
    (hscope : request.scope = scope) (hstore : r.store.declare p request = .ok store) :
    { r with store }.Housed isOpen where
  declared decl hdecl hlive := by
    rcases Store.mem_decls_of_declare hstore hdecl with hold | hnew
    · exact h.declared decl hold hlive
    · rw [hnew, hscope]
      exact hopen
  cut := h.cut
  held loan hloan := Store.alive_of_declare hstore (h.held loan hloan)

theorem transfer (h : r.Housed isOpen) (source : Place) {target : Place} (htarget : r.store.Alive target.root) :
    { r with ledger := (r.ledger.transfer source target).2 }.Housed isOpen where
  declared := h.declared
  cut := h.cut
  held loan hloan := by
    obtain ⟨old, hold, rfl⟩ := List.mem_map.mp hloan
    split
    · exact htarget
    · exact h.held old hold

/-- A variable that is withdrawn takes along the loans that its parts hold. -/
theorem withdraw (h : r.Housed isOpen) (p : Place) : (r.withdraw p).Housed isOpen where
  declared decl hdecl hlive := h.declared decl (Store.mem_decls_of_retire hdecl hlive).1 hlive
  cut := by
    rw [splits_withdraw]
    exact h.cut
  held loan hloan := by
    obtain ⟨hbefore, hout⟩ := not_held_of_mem_withdraw hloan
    rw [store_withdraw, Store.alive_retire_iff]
    refine ⟨h.held loan hbefore, ?_⟩
    rintro ⟨hvar, hroot⟩
    rw [Place.isPrefixOf_of_isVar hvar hroot.symm] at hout
    exact Bool.noConfusion hout

theorem lend (h : r.Housed isOpen) (hopen : isOpen scope) {request : LoanRequest} {nesting : Nesting} {id : LoanId}
    {ledger : Ledger} {store : Store} (hledger : r.ledger.borrow request nesting = .ok (id, ledger))
    (hstores : r.store.Stores scope request store) : { r with ledger, store }.Housed isOpen where
  declared decl hdecl hlive := by
    rcases hstores.exists_of_mem_decls hdecl with ⟨old, hold, hsame, hscope⟩ | hnew
    · rw [hscope]
      exact h.declared old hold (hsame ▸ hlive)
    · rw [hnew]
      exact hopen
  cut := h.cut
  held loan hloan := by
    obtain ⟨-, -, rfl, rfl⟩ := Ledger.borrow_eq_ok_iff.mp hledger
    rcases List.mem_append.mp hloan with hold | hnew
    · exact hstores.alive (h.held loan hold)
    · rw [List.mem_singleton.mp hnew]
      exact hstores.alive_holder

theorem insertSplit (h : r.Housed isOpen) {split : Split} (hopen : isOpen split.scope) :
    { r with splits := r.splits.insert split }.Housed isOpen where
  declared := h.declared
  cut := by
    intro other hother
    simp only [Splits.insert] at hother
    split at hother
    · exact h.cut other hother
    · rcases List.mem_append.mp hother with hold | hnew
      · exact h.cut other hold
      · rw [List.mem_singleton.mp hnew]
        exact hopen
  held := h.held

/-- A place has its number without anything coming alive. -/
theorem enter (h : r.Housed isOpen) (p : Place) : (r.enter p).Housed isOpen := ⟨h.declared, h.cut, h.held⟩

/-- A revision in an open scope keeps everything housed. -/
theorem revision (h : r.Housed isOpen) (hledger : r.ledger.Disciplined) {declared : Place → Prop}
    {takes : Bool} (hrevision : Revision declared scope r takes r') (hopen : isOpen scope) : r'.Housed isOpen := by
  cases hrevision with
  | declare hscope _ hstore => exact (h.enter _).declare hopen hscope hstore
  | refuse _ => exact h.enter _
  | @rebind source target request store hscope _ _ hstore =>
    have hbound : { r.enter target with store }.Housed isOpen := (h.enter target).declare hopen hscope hstore
    have hhanded := hbound.transfer source (Store.alive_root_of_declare hstore)
    exact ⟨hhanded.declared, hhanded.cut, hhanded.held⟩
  | describe _ hstore =>
    obtain ⟨-, rfl⟩ := Store.registerFacts_eq_ok_iff.mp hstore
    exact ⟨h.declared, h.cut, h.held⟩
  | withdraw _ _ => exact h.withdraw _
  | @bury p _ =>
    have hreleased : (r.releaseEach (r.ledger.lentIds p)).Housed isOpen :=
      h.depart (Ledger.loans_releaseEach_sublist _ _)
    exact hreleased.withdraw p
  | lend _ hlend hstores _ => exact ((h.enter _).enter _).lend hopen hlend hstores
  | @revoke request nesting id ledger _ hlend =>
    have hback : (ledger.release id).2.loans = r.ledger.loans := by rw [hledger.release_borrow hlend]
    exact ⟨h.declared, h.cut, fun loan hloan => h.held loan (hback ▸ hloan)⟩
  | decline _ => exact (h.enter _).enter _
  | release gone => exact h.depart (Ledger.snd_releaseWhere _ gone ▸ List.filter_sublist)
  | cut array boundary => exact (((h.enter _).enter _).enter _).insertSplit hopen
  | discard id => exact ⟨h.declared, fun split hsplit => h.cut split (List.mem_of_mem_filter hsplit), h.held⟩

end Housed

/-! ## Burials -/

theorem splits_buryAll (ps : List Place) : (r.buryAll ps).2.splits = r.splits := by
  induction ps generalizing r with
  | nil => rfl
  | cons p ps ih => exact ih.trans (splits_withdraw _ p)

/-- What is live after burials was live before, and has not been buried. -/
theorem mem_decls_of_buryAll {decl : Declaration} (hlive : decl.live = true) (ps : List Place)
    (hdecl : decl ∈ (r.buryAll ps).2.store.decls) :
    decl ∈ r.store.decls ∧ ∀ p ∈ ps, ¬ (p.isVar = true ∧ decl.name = p.root) := by
  induction ps generalizing r with
  | nil => exact ⟨hdecl, fun _ hp => absurd hp List.not_mem_nil⟩
  | cons p ps ih =>
    obtain ⟨hleft, hothers⟩ := ih (r := (r.bury p).2) hdecl
    rw [store_bury] at hleft
    obtain ⟨hold, hother⟩ := Store.mem_decls_of_retire hleft hlive
    refine ⟨hold, fun q hq => ?_⟩
    rcases List.mem_cons.mp hq with rfl | hq
    · exact hother
    · exact hothers q hq

end Registry

namespace Session

variable {config : Config} {s : Session} {op : Operation}

/-! ## The stack of open scopes -/

def IsOpen (s : Session) (id : ScopeId) : Prop := id ∈ s.scopes.map (·.id)

/-- The open scopes are different from each other, with the outermost one at the bottom. -/
structure Stacked (scopes : List OpenScope) : Prop where
  outermost : scopes.getLast? = some ⟨.root, lastIndex⟩
  distinct : (scopes.map (·.id)).Nodup

theorem Stacked.push {scopes : List OpenScope} (h : Stacked scopes) {scope : OpenScope}
    (hfresh : ∀ other ∈ scopes, other.id ≠ scope.id) : Stacked (scope :: scopes) where
  outermost := by
    rw [List.getLast?_cons, h.outermost]
    rfl
  distinct := by
    refine List.nodup_cons.mpr ⟨fun hmem => ?_, h.distinct⟩
    obtain ⟨other, hother, hid⟩ := List.mem_map.mp hmem
    exact hfresh other hother hid

theorem Stacked.pop {scope : OpenScope} {outer : List OpenScope} (h : Stacked (scope :: outer)) (hid : scope.id ≠ .root) :
    Stacked outer where
  outermost := by
    cases outer with
    | nil =>
      -- the outermost scope is not closed
      have hbottom : scope = ⟨.root, lastIndex⟩ := Option.some.inj h.outermost
      rw [hbottom] at hid
      exact absurd rfl hid
    | cons next outer =>
      have hbottom := h.outermost
      rwa [List.getLast?_cons_cons] at hbottom
  distinct := (List.nodup_cons.mp h.distinct).2

theorem stacked_scopesAfter (h : Stacked s.scopes) (op : Operation) : Stacked (s.scopesAfter op) := by
  cases op with
  | scopeBegin id =>
    rw [scopesAfter]
    split
    · exact h
    next hfresh => exact h.push (by simpa using hfresh)
  | scopeEnd id =>
    rw [scopesAfter]
    split
    next hcloses =>
      obtain ⟨hroot, hcurrent⟩ := closes_iff.mp hcloses
      rw [currentScope] at hcurrent
      cases hscopes : s.scopes with
      | nil =>
        rw [hscopes] at hcurrent
        exact absurd hcurrent.symm hroot
      | cons innermost outer =>
        rw [hscopes] at h hcurrent
        exact h.pop fun hid => hroot (hcurrent.symm.trans hid)
    next => exact h
  | _ => exact h

theorem Stacked.isOpen_currentScope (h : Stacked s.scopes) : s.IsOpen s.currentScope := by
  rw [IsOpen, currentScope]
  cases hscopes : s.scopes with
  | nil =>
    rw [hscopes] at h
    exact absurd h.outermost (by simp)
  | cons innermost outer => exact List.mem_cons_self

/-! ## Operations -/

/-- What belongs to a scope goes with it when it closes. -/
theorem housed_endScope (hplaced : s.store.Placed) {isOpen : ScopeId → Prop} {id : ScopeId} (hcloses : s.closes id = true)
    (h : (s.endScope id).2.registry.Housed isOpen) : (s.endScope id).2.registry.Housed fun x => isOpen x ∧ x ≠ id where
  declared decl hdecl hlive := by
    refine ⟨h.declared decl hdecl hlive, ?_⟩
    rintro rfl
    rw [endScope_of_closes hcloses] at hdecl
    obtain ⟨hold, hunburied⟩ := Registry.mem_decls_of_buryAll hlive _ hdecl
    rw [unwound_frame] at hold
    -- a live variable of the scope is among those that die with it
    have hdying : decl.place ∈ s.dying decl.scope := by
      refine List.mem_map_of_mem (List.mem_reverse.mpr (List.mem_filter.mpr ⟨hold, ?_⟩))
      rw [hlive, beq_self_eq_true]
      rfl
    refine hunburied decl.place hdying ⟨isVar_of_mem_dying hplaced hdying, ?_⟩
    rw [hplaced decl hold]
    rfl
  cut split hsplit := by
    refine ⟨h.cut split hsplit, ?_⟩
    rw [endScope_of_closes hcloses] at hsplit
    change split ∈ ((s.unwound id).buryAll (s.dying id)).2.splits.records at hsplit
    rw [Registry.splits_buryAll, unwound_frame] at hsplit
    exact bne_iff_ne.mp (List.mem_filter.mp hsplit).2
  held := h.held

theorem apply_housed (hledger : s.ledger.Disciplined) (hplaced : s.store.Placed) (hstack : Stacked s.scopes)
    (h : s.registry.Housed s.IsOpen) (op : Operation) : (s.apply op).2.registry.Housed (s.apply op).2.IsOpen := by
  have hkept : (s.apply op).2.registry.Housed s.IsOpen :=
    apply_invariant (fun _ _ _ hrevision hledger h => h.revision hledger hrevision hstack.isOpen_currentScope) hledger op h
  -- a scope stays open unless it is the one that closes
  have hstays : ∀ id, s.IsOpen id → (∀ closing, op = .scopeEnd closing → s.closes closing = true → id ≠ closing) →
      (s.apply op).2.IsOpen id := by
    intro id hid hop
    obtain ⟨scope, hscope, rfl⟩ := List.mem_map.mp hid
    rw [IsOpen, apply_frame]
    exact List.mem_map_of_mem (mem_scopesAfter hscope hop)
  by_cases hcloses : ∃ closing, op = .scopeEnd closing ∧ s.closes closing = true
  · obtain ⟨closing, rfl, hcloses⟩ := hcloses
    refine (housed_endScope hplaced hcloses hkept).mono fun id hid => hstays id hid.1 ?_
    rintro _ ⟨⟩ -
    exact hid.2
  · exact hkept.mono fun id hid => hstays id hid fun closing hop h => absurd ⟨closing, hop, h⟩ hcloses

theorem Reachable.stacked_housed (h : Reachable config s) : Stacked s.scopes ∧ s.registry.Housed s.IsOpen := by
  refine h.preserved (P := fun t => Stacked t.scopes ∧ t.registry.Housed t.IsOpen) ?_ (fun _ _ ht => ht) (fun _ ht => ht) ?_
  · exact ⟨⟨rfl, List.pairwise_singleton _ _⟩, fun _ h => absurd h List.not_mem_nil, fun _ h => absurd h List.not_mem_nil,
      fun _ h => absurd h List.not_mem_nil⟩
  · intro t op stopped hreach ht
    have hrefreshed : t.refreshed.registry.Housed t.refreshed.IsOpen :=
      ht.2.depart (loans_refreshed t ▸ List.filter_sublist)
    refine ⟨?_, apply_housed hreach.refreshed_disciplined hreach.placed ht.1 hrefreshed op⟩
    rw [apply_frame]
    exact stacked_scopesAfter ht.1 op

/-! ## Recorded histories -/

/-- The session is reached from the start with these verdicts on the operations so far. -/
inductive Recorded (config : Config) : List Verdict → Session → Prop where
  | start : Recorded config [] { config }
  | step {verdicts : List Verdict} {s : Session} (op : Operation) :
      Recorded config verdicts s → Recorded config (verdicts ++ [(s.step op).1]) (s.step op).2
  | paired {verdicts : List Verdict} {s : Session} (ops : List Operation) :
      Recorded config verdicts s → Recorded config verdicts (s.paired ops)

namespace Recorded

variable {verdicts : List Verdict}

theorem stepAll (h : Recorded config verdicts s) (ops : List Operation) :
    Recorded config (verdicts ++ (s.stepAll ops).1) (s.stepAll ops).2 := by
  induction ops generalizing verdicts s with
  | nil =>
    rw [Session.stepAll, List.append_nil]
    exact h
  | cons op ops ih =>
    have hrest := ih (h.step op)
    rw [List.append_assoc] at hrest
    exact hrest

theorem run (h : Recorded config verdicts s) (ops : List Operation) :
    Recorded config (verdicts ++ (s.run ops).1) (s.run ops).2 := by
  rw [run_eq_stepAll_paired]
  exact (h.paired ops).stepAll ops

theorem length_eq (h : Recorded config verdicts s) : verdicts.length = s.next := by
  induction h with
  | start => rfl
  | step op _ ih => rw [List.length_append, next_step, ih, List.length_singleton]
  | paired ops _ ih => exact ih

end Recorded

/-- Histories with and without their verdicts are the same. -/
theorem reachable_iff_recorded : Reachable config s ↔ ∃ verdicts, Recorded config verdicts s := by
  constructor
  · intro h
    rw [Reachable] at h
    induction h with
    | refl => exact ⟨_, .start⟩
    | @step t op _ _ ih =>
      obtain ⟨verdicts, hverdicts⟩ := ih
      exact ⟨_, hverdicts.step op⟩
    | paired ops _ ih =>
      obtain ⟨verdicts, hverdicts⟩ := ih
      exact ⟨_, hverdicts.paired ops⟩
  · rintro ⟨verdicts, h⟩
    induction h with
    | start => exact .start config
    | step op _ ih => exact ih.step op
    | paired ops _ ih => exact Later.paired ops ih

/-! ## Spans -/

/-- A loan for a span of operations starts with the operation that made it, and has not run out: no operation after its
end has been checked. -/
def KeepsSpan (verdicts : List Verdict) (loan : Loan) : Prop :=
  ∀ start stop, loan.region = .span start stop →
    start = loan.created ∧ stop = loan.stop ∧ ∀ i v, verdicts[i]? = some v → v ≠ .unchecked → i ≤ loan.stop

/-- After a step that has been checked, the loans for spans cover its operation. -/
theorem span_of_mem_step (hs : Reachable config s) (hrun : s.stopped = false) {loan : Loan}
    (hloan : loan ∈ (s.step op).2.ledger.loans) {start stop : Nat} (hregion : loan.region = .span start stop) :
    s.next ≤ loan.stop ∧
      ((start = loan.created ∧ stop = loan.stop) ∨ ∃ old ∈ s.ledger.loans, loan = { old with holder := loan.holder }) := by
  rcases mem_loans_step hs hrun hloan with ⟨old, hold, hsame⟩ | hnew
  · obtain ⟨hmem, hleft⟩ := mem_refreshed_iff.mp hold
    rw [hsame] at hregion ⊢
    refine ⟨?_, Or.inr ⟨old, hmem, rfl⟩⟩
    have hspan : old.region = .span start stop := hregion
    rw [Ledger.expired, hspan] at hleft
    simpa using hleft
  · cases op with
    | borrow source kind holder region =>
      obtain ⟨last, hlast, rfl⟩ := List.mem_map.mp hnew
      obtain rfl : region = .span start stop := hregion
      simp only [Option.mem_toList, regionStop?, Option.ite_none_right_eq_some] at hlast
      obtain ⟨⟨hstart, hle⟩, hstop⟩ := hlast
      cases hstop
      exact ⟨hle, Or.inl ⟨hstart, rfl⟩⟩
    | _ => exact absurd hnew List.not_mem_nil

theorem Recorded.keepsSpan {verdicts : List Verdict} (h : Recorded config verdicts s) :
    ∀ loan ∈ s.ledger.loans, KeepsSpan verdicts loan := by
  induction h with
  | start => exact fun _ hloan => absurd hloan List.not_mem_nil
  | paired ops _ ih => exact ih
  | @step verdicts s op hbefore ih =>
    intro loan hloan start stop hregion
    cases hrun : s.stopped with
    | true =>
      -- nothing happens, and the verdict says so
      rw [step_of_stopped hrun] at hloan ⊢
      obtain ⟨hstart, hstop, hcovers⟩ := ih loan hloan start stop hregion
      refine ⟨hstart, hstop, fun i v hv hchecked => ?_⟩
      by_cases hi : i < verdicts.length
      · rw [List.getElem?_append_left hi] at hv
        exact hcovers i v hv hchecked
      · rw [List.getElem?_append_right (Nat.le_of_not_lt hi)] at hv
        exact absurd (List.mem_singleton.mp (List.mem_of_getElem? hv)) hchecked
    | false =>
      have hs : Reachable config s := reachable_iff_recorded.mpr ⟨_, hbefore⟩
      obtain ⟨hcovers, horigin⟩ := span_of_mem_step hs hrun hloan hregion
      have hdated : start = loan.created ∧ stop = loan.stop := by
        rcases horigin with hnew | ⟨old, hold, hsame⟩
        · exact hnew
        · rw [hsame] at hregion ⊢
          obtain ⟨hstart, hstop, -⟩ := ih old hold start stop hregion
          exact ⟨hstart, hstop⟩
      refine ⟨hdated.1, hdated.2, fun i v hv _ => ?_⟩
      have hlt : i < (verdicts ++ [(s.step op).1]).length := List.getElem?_eq_some_iff.mp hv |>.1
      rw [List.length_append, hbefore.length_eq, List.length_singleton] at hlt
      omega

/-! ## The discipline -/

/-- What the open scopes mean for the variables, the loans and the splits of a session, after these verdicts. -/
structure WellScoped (s : Session) (verdicts : List Verdict) : Prop where
  /-- The outermost scope is at the bottom of the stack. -/
  outermost : s.scopes.getLast? = some ⟨.root, lastIndex⟩
  distinct : (s.scopes.map (·.id)).Nodup
  /-- Live variables belong to open scopes. -/
  declared : ∀ decl ∈ s.store.decls, decl.live = true → decl.scope ∈ s.scopes.map (·.id)
  /-- A loan that is tied to a scope ends with it, and the scope is open. -/
  tied : ∀ loan ∈ s.ledger.loans, ∀ id, loan.region = .scope id → ⟨id, loan.stop⟩ ∈ s.scopes
  cut : ∀ split ∈ s.splits.records, split.scope ∈ s.scopes.map (·.id)
  /-- The variable that holds a loan, in whole or in part, is declared and live. -/
  held : ∀ loan ∈ s.ledger.loans, ∃ decl, s.store.find? loan.holder.root = some decl ∧ decl.live = true
  spans : ∀ loan ∈ s.ledger.loans, KeepsSpan verdicts loan

/-- **Scope discipline.** However a session has been used, everything that is alive in it belongs to an open scope, and
the loans that are live have not reached their ends. -/
theorem scope_discipline {verdicts : List Verdict} (h : Recorded config verdicts s) : s.WellScoped verdicts := by
  have hs : Reachable config s := reachable_iff_recorded.mpr ⟨_, h⟩
  obtain ⟨hstack, hhoused⟩ := hs.stacked_housed
  exact {
    outermost := hstack.outermost
    distinct := hstack.distinct
    declared := hhoused.declared
    tied := hs.tied
    cut := hhoused.cut
    held := fun loan hloan => Store.alive_iff.mp (hhoused.held loan hloan)
    spans := h.keepsSpan }

/-- In the midst of a second run: a scope that is yet to close, with a split, a loan tied to it and a loan for a span. -/
theorem inner_scope_amid_run :
    let first := ({} : Session).run [.bindFreshMut (.var ⟨0⟩)]
    let ops : List Operation := [.scopeBegin ⟨1⟩, .bindFreshMut (.var ⟨1⟩), .split (.var ⟨1⟩) 2,
      .borrowShared (.var ⟨0⟩) (.var ⟨2⟩) (.scope ⟨1⟩), .borrowShared (.var ⟨0⟩) (.var ⟨3⟩) (.span 5 7), .scopeEnd ⟨1⟩]
    let amid := (first.2.paired ops).stepAll (ops.take 5)
    first.1 ++ amid.1 = List.replicate 6 .ok ∧
    amid.2.scopes = [⟨⟨1⟩, 6⟩, ⟨.root, lastIndex⟩] ∧
    amid.2.ledger.loans.map (fun loan => (loan.region, loan.stop)) = [(.scope ⟨1⟩, 6), (.span 5 7, 7)] ∧
    amid.2.splits.records.map (·.scope) = [⟨1⟩] ∧
    amid.2.WellScoped (first.1 ++ amid.1) := by
  intro first ops amid
  have hfirst : Recorded {} first.1 first.2 := Recorded.start.run [.bindFreshMut (.var ⟨0⟩)]
  have hrecorded : Recorded {} (first.1 ++ amid.1) amid.2 := (hfirst.paired ops).stepAll (ops.take 5)
  exact ⟨by decide, by decide, by decide, by decide, scope_discipline hrecorded⟩

end Session

end BorrowChecker
