import BorrowChecker.Proofs.Turnover

/-!
# Loans of a value that moves

When the value of a place moves into a binding, the references stored inside it should move along: a loan held at the
place or inside it is then held at the corresponding place of the target (`Loan.carried`). The checker hands loans on
only if the source is a whole variable, known to hold a reference, and only those held by the variable itself. Every
variable that holds a loan is known to do so (`Reachable.holdersKnown`), so the loans lost are exactly those held by a
part (`moved_loans_carried_iff`).
-/

namespace BorrowChecker

/-! ## Variables known to hold a reference -/

namespace Store

variable {store store' : Store} {p : Place} {x y : Symbol}

def IsHolder (store : Store) (x : Symbol) : Prop :=
  ∃ decl, store.find? x = some decl ∧ decl.live = true ∧ decl.holder.isSome = true

theorem IsHolder.retire (h : store.IsHolder x) (hne : ¬ (p.isVar = true ∧ x = p.root)) :
    (store.retire p).IsHolder x := by
  obtain ⟨decl, hfind, hlive, hholder⟩ := h
  refine ⟨decl, ?_, hlive, hholder⟩
  rw [Store.retire]
  split
  next hvar =>
    have hx : x ≠ p.root := fun hroot => hne ⟨hvar, hroot⟩
    rw [find?_update_of_ne _ hx]
    · exact hfind
    · exact fun _ => rfl
  next => exact hfind

theorem IsHolder.declare {request : DeclareRequest} (h : store.IsHolder x)
    (hdeclare : store.declare p request = .ok store') : store'.IsHolder x := by
  obtain ⟨decl, hfind, hlive, hholder⟩ := h
  refine ⟨decl, ?_, hlive, hholder⟩
  rcases declare_eq_ok_iff.mp hdeclare with ⟨-, hvar⟩ | ⟨-, hpart⟩
  · have hx : x ≠ p.root := by
      rintro rfl
      exact (declareVar_eq_ok_iff.mp hvar).1 (alive_iff.mpr ⟨decl, hfind, hlive⟩)
    rw [find?_declareVar_of_ne hvar hx]
    exact hfind
  · obtain ⟨-, -, -, rfl⟩ := reinitialise_eq_ok_iff.mp hpart
    exact hfind

theorem isHolder_of_declare {request : DeclareRequest} (hvar : p.isVar = true) (hholder : request.holder.isSome = true)
    (hdeclare : store.declare p request = .ok store') : store'.IsHolder p.root := by
  rcases declare_eq_ok_iff.mp hdeclare with ⟨-, hdeclared⟩ | ⟨hpart, -⟩
  · exact ⟨_, find?_declareVar_self hdeclared, rfl, hholder⟩
  · rw [hvar] at hpart
    exact Bool.noConfusion hpart

theorem isHolder_of_assignHolder {kind : BorrowKind} (h : store.assignHolder x kind = .ok store') :
    store'.IsHolder x := by
  obtain ⟨decl, hfind, hlive, hholder⟩ := find?_assignHolder h
  exact ⟨decl, hfind, hlive, by rw [hholder]; rfl⟩

theorem IsHolder.assignHolder {kind : BorrowKind} (h : store.IsHolder x)
    (hassign : store.assignHolder y kind = .ok store') : store'.IsHolder x := by
  by_cases hx : x = y
  · subst hx
    exact isHolder_of_assignHolder hassign
  · obtain ⟨-, rfl⟩ := assignHolder_eq_ok_iff.mp hassign
    rw [IsHolder, find?_update_of_ne _ hx]
    · exact h
    · exact fun _ => rfl

/-- A variable that is to hold the reference of a new loan is recorded as its holder. -/
theorem Stores.isHolder {scope : ScopeId} {request : LoanRequest} (h : store.Stores scope request store')
    (hvar : request.holder.isVar = true) : store'.IsHolder request.holder.root := by
  cases h with
  | part hpart =>
    rw [hvar] at hpart
    exact Bool.noConfusion hpart
  | assign _ hassign => exact isHolder_of_assignHolder hassign
  | declare _ _ hholder hdeclare => exact isHolder_of_declare hvar (by rw [hholder]; rfl) hdeclare

theorem IsHolder.stores {scope : ScopeId} {request : LoanRequest} (h : store.IsHolder x)
    (hstores : store.Stores scope request store') : store'.IsHolder x := by
  cases hstores with
  | part => exact h
  | assign _ hassign => exact h.assignHolder hassign
  | declare _ _ _ hdeclare => exact h.declare hdeclare

end Store

namespace Registry

variable {r r' : Registry} {scope : ScopeId}

/-- Every variable that holds a loan as a whole is recorded to hold a reference. -/
def HoldersKnown (r : Registry) : Prop :=
  ∀ loan ∈ r.ledger.loans, loan.holder.isVar = true → r.store.IsHolder loan.holder.root

namespace HoldersKnown

theorem of_sublist (h : r.HoldersKnown) {ledger : Ledger} (hsub : ledger.loans.Sublist r.ledger.loans) :
    { r with ledger }.HoldersKnown := fun loan hloan => h loan (hsub.subset hloan)

theorem declare (h : r.HoldersKnown) {p : Place} {request : DeclareRequest} {store : Store}
    (hstore : r.store.declare p request = .ok store) : { r with store }.HoldersKnown :=
  fun loan hloan hvar => (h loan hloan hvar).declare hstore

/-- A variable that is withdrawn takes the loans it holds with it. -/
theorem withdraw (h : r.HoldersKnown) (p : Place) : (r.withdraw p).HoldersKnown := by
  intro loan hloan hvar
  obtain ⟨hbefore, hout⟩ := not_held_of_mem_withdraw hloan
  rw [store_withdraw]
  refine (h loan hbefore hvar).retire ?_
  rintro ⟨hp, hroot⟩
  rw [Place.isPrefixOf_of_isVar hp hroot.symm] at hout
  exact Bool.noConfusion hout

theorem transfer (h : r.HoldersKnown) (source : Place) {target : Place}
    (htarget : target.isVar = true → r.store.IsHolder target.root) :
    { r with ledger := (r.ledger.transfer source target).2 }.HoldersKnown := by
  intro loan hloan hvar
  obtain ⟨old, hold, rfl⟩ := List.mem_map.mp hloan
  change r.store.IsHolder _
  split at hvar
  next hsource =>
    rw [if_pos hsource]
    exact htarget hvar
  next hsource =>
    rw [if_neg hsource]
    exact h old hold hvar

theorem lend (h : r.HoldersKnown) {request : LoanRequest} {nesting : Nesting} {id : LoanId} {ledger : Ledger}
    {store : Store} (hledger : r.ledger.borrow request nesting = .ok (id, ledger))
    (hstores : r.store.Stores scope request store) : { r with ledger, store }.HoldersKnown := by
  intro loan hloan hvar
  obtain ⟨-, -, rfl, rfl⟩ := Ledger.borrow_eq_ok_iff.mp hledger
  rcases List.mem_append.mp hloan with hold | hnew
  · exact (h loan hold hvar).stores hstores
  · rw [List.mem_singleton.mp hnew] at hvar ⊢
    exact hstores.isHolder hvar

theorem revision (h : r.HoldersKnown) (hledger : r.ledger.Disciplined) {declared : Place → Prop}
    {takes : Bool}
    (hrevision : Revision declared scope r takes r') : r'.HoldersKnown := by
  cases hrevision with
  | declare _ _ hstore => exact h.declare hstore
  | rebind _ hholder _ hstore =>
    -- the target is declared to be a holder, so it may take the loans over
    exact (h.declare hstore).transfer _ fun hvar => Store.isHolder_of_declare hvar hholder hstore
  | describe _ hstore =>
    obtain ⟨-, rfl⟩ := Store.registerFacts_eq_ok_iff.mp hstore
    exact h
  | withdraw _ _ => exact h.withdraw _
  | @bury p _ =>
    have hreleased : (r.releaseEach (r.ledger.lentIds p)).HoldersKnown :=
      h.of_sublist (Ledger.loans_releaseEach_sublist _ _)
    exact hreleased.withdraw p
  | lend _ hlend hstores _ => exact h.lend hlend hstores
  | @revoke request nesting id ledger _ hlend =>
    have hback : (ledger.release id).2.loans = r.ledger.loans := by rw [hledger.release_borrow hlend]
    exact fun loan hloan => h loan (hback ▸ hloan)
  | release gone => exact h.of_sublist (Ledger.snd_releaseWhere _ gone ▸ List.filter_sublist)
  | refuse | decline | cut | discard => exact h

end HoldersKnown

end Registry

namespace Session

variable {s : Session}

theorem refreshed_holdersKnown (h : s.registry.HoldersKnown) : s.refreshed.registry.HoldersKnown :=
  h.of_sublist (loans_refreshed s ▸ List.filter_sublist)

theorem Reachable.holdersKnown {config : Config} (h : Reachable config s) : s.registry.HoldersKnown := by
  refine h.preserved (P := fun t => t.registry.HoldersKnown) (fun _ hloan => absurd hloan List.not_mem_nil)
    (fun _ _ ht => ht) (fun _ ht => ht) ?_
  intro t op stopped hreach ht
  exact apply_invariant (fun _ _ _ hrevision hledger h => h.revision hledger hrevision) hreach.refreshed_disciplined op
    (refreshed_holdersKnown ht)

end Session

/-! ## Carried loans -/

/-- The place that lies in `target` as `q` lies in `source`. -/
def Place.rebase (q source target : Place) : Place :=
  { target with path := target.path ++ q.path.drop source.path.length }

/-- The loan after the value of `source` has moved to `target`. -/
def Loan.carried (source target : Place) (loan : Loan) : Loan :=
  if source.isPrefixOf loan.holder then { loan with holder := loan.holder.rebase source target } else loan

theorem Place.rebase_self (source target : Place) : source.rebase source target = target := by
  rw [rebase, List.drop_length, List.append_nil]

namespace Session

variable {s : Session}

/-- The loans that stay live when a value moves, of those held at its place or inside it, are held by a variable. -/
theorem whole_of_fate {target p : Place} {init : Init} {mutable : Bool} {perms : PermSet} {facts : TypeFacts}
    (hmoved : s.movedFrom? init = some p) {loan : Loan}
    (hkept : (s.fate (.bind target init mutable perms facts) loan).isSome = true)
    (hinside : p.isPrefixOf loan.holder = true) : p.isVar = true ∧ loan.holder = p := by
  simp only [fate, hmoved] at hkept
  split at hkept
  next hhanded => exact ⟨isVar_of_heldKind? hhanded.2, hhanded.1⟩
  next =>
    rw [endHeldBy, if_pos hinside] at hkept
    exact Bool.noConfusion hkept

theorem heldKind?_of_holder (hknown : s.registry.HoldersKnown) {loan : Loan} (hloan : loan ∈ s.ledger.loans)
    (hvar : loan.holder.isVar = true) : (s.heldKind? loan.holder).isSome = true := by
  have hholds : s.store.IsHolder loan.holder.root := hknown loan hloan hvar
  obtain ⟨decl, hfind, -, hheld⟩ := hholds
  rw [heldKind?, if_pos hvar, hfind]
  exact hheld

theorem fate_eq_carried (hknown : s.registry.HoldersKnown) {target p : Place} {init : Init} {mutable : Bool}
    {perms : PermSet} {facts : TypeFacts} (hmoved : s.movedFrom? init = some p) {loan : Loan}
    (hloan : loan ∈ s.ledger.loans)
    (hwhole : p.isPrefixOf loan.holder = true → p.isVar = true ∧ loan.holder = p) :
    s.fate (.bind target init mutable perms facts) loan = some (loan.carried p target) := by
  simp only [fate, hmoved, Loan.carried]
  cases hinside : p.isPrefixOf loan.holder with
  | true =>
    obtain ⟨hvar, hholder⟩ := hwhole hinside
    have hkind : (s.heldKind? p).isSome = true := by
      rw [← hholder] at hvar ⊢
      exact heldKind?_of_holder hknown hloan hvar
    rw [if_pos ⟨hholder, hkind⟩, if_pos rfl, hholder, Place.rebase_self]
  | false =>
    have hne : loan.holder ≠ p := by
      rintro rfl
      rw [Place.isPrefixOf_refl] at hinside
      exact Bool.noConfusion hinside
    rw [if_neg fun h => hne h.1, endHeldBy, hinside]
    rfl

/-- **Loans follow the value that holds them** exactly if whole variables hold them. A binding that moves the value of
`p` hands on every loan held at `p` or inside it, and leaves all others as they are, if and only if all of the former are
held by `p` itself and `p` is a variable. -/
theorem moved_loans_carried_iff {config : Config} (hs : Reachable config s) {target p : Place} {init : Init}
    {mutable : Bool} {perms : PermSet} {facts : TypeFacts}
    (hmoves : init = .move p ∨ (init = .copy p ∧ (s.factsOf p).duplicable = false))
    (hok : (s.step (.bind target init mutable perms facts)).1 = .ok) :
    (s.step (.bind target init mutable perms facts)).2.ledger.loans =
        s.refreshed.ledger.loans.map (·.carried p target) ↔
      ∀ loan ∈ s.refreshed.ledger.loans, p.isPrefixOf loan.holder = true → p.isVar = true ∧ loan.holder = p := by
  obtain ⟨-, hnone, hstep⟩ := step_accepted hok
  have hloans : (s.step (.bind target init mutable perms facts)).2.ledger.loans =
      s.refreshed.ledger.loans.filterMap (s.refreshed.fate (.bind target init mutable perms facts)) := by
    rw [hstep]
    exact loans_bind hs.refreshed_disciplined hnone
  have hmoved : s.refreshed.movedFrom? init = some p := by
    rcases hmoves with rfl | ⟨rfl, hdup⟩
    · rfl
    · have hdup' : (s.refreshed.factsOf p).duplicable = false := hdup
      simp [movedFrom?, hdup']
  rw [hloans]
  constructor
  · -- a loan that ends would be missing from the list
    intro heq loan hloan hinside
    have hlength := congrArg List.length heq
    rw [List.length_map, List.filterMap_length_eq_length] at hlength
    exact whole_of_fate hmoved (hlength loan hloan) hinside
  · intro hwhole
    rw [← List.filterMap_eq_map]
    refine List.filterMap_congr fun loan hloan => ?_
    exact fate_eq_carried (refreshed_holdersKnown hs.holdersKnown) hmoved hloan (hwhole loan hloan)

/-- A variable's reference moves, and the loan of another stays. -/
theorem reference_of_variable_carried :
    let s := (({} : Session).stepAll [.bindFreshMut (.var ⟨0⟩), .borrowExclusive (.var ⟨0⟩) (.var ⟨1⟩) (.scope .root),
      .bindFreshMut (.var ⟨2⟩), .borrowShared (.var ⟨2⟩) (.var ⟨3⟩) (.scope .root)]).2
    s.ledger.loans.map (·.holder) = [.var ⟨1⟩, .var ⟨3⟩] ∧
    (s.step (.bindMove (.var ⟨4⟩) (.var ⟨1⟩))).2.ledger.loans =
      s.refreshed.ledger.loans.map (·.carried (.var ⟨1⟩) (.var ⟨4⟩)) := by
  intro s
  have hs : Reachable {} s := (Reachable.start {}).stepAll _
  exact ⟨by decide, (moved_loans_carried_iff hs (Or.inl rfl) (by decide)).mpr (by decide)⟩

/-- A reference in a field does not move with the record: its loan ends, and what it lent is free again although the
target holds the reference. -/
theorem reference_in_field_not_carried :
    let s := (({} : Session).stepAll [.bindFreshMut (.var ⟨0⟩), .bindFreshMut (.var ⟨1⟩),
      .borrowExclusive (.var ⟨0⟩) ⟨⟨1⟩, [.field ⟨2⟩]⟩ (.scope .root)]).2
    let t := s.step (.bindMove (.var ⟨3⟩) (.var ⟨1⟩))
    t.1 = .ok ∧
    s.refreshed.ledger.loans.map (fun loan => (loan.carried (.var ⟨1⟩) (.var ⟨3⟩)).holder) = [⟨⟨3⟩, [.field ⟨2⟩]⟩] ∧
    t.2.ledger.loans = [] := by
  decide

end Session

end BorrowChecker
