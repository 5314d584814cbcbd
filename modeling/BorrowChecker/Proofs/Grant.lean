import BorrowChecker.Proofs.Turnover

/-!
# What a reference gives

A shared reference should give reading and an exclusive one reading and writing, of everything behind it. The store
enforces this through the declaration of a variable that holds a reference: what lies behind it is limited to the grant
(`Store.confines_of_holder`). No such record is made if the reference is stored into a part, or if a shared reference is
copied, since a copy is declared like any other value. Behind these lies whatever the variable gives itself, and the
grant is kept only if that happens to be no more (`stored_reference_confined_iff`).
-/

namespace BorrowChecker

namespace PermSet

variable {a b c : PermSet}

theorem sdiff_subset (a b : PermSet) : a \ b ⊆ a := by
  rw [subset_iff_getLsbD]
  intro i hi
  rw [bits_sdiff, BitVec.getLsbD_and, Bool.and_eq_true] at hi
  exact hi.1

theorem subset_trans (hab : a ⊆ b) (hbc : b ⊆ c) : a ⊆ c := by
  rw [subset_iff_getLsbD] at hab hbc ⊢
  exact fun i hi => hbc i (hab i hi)

theorem sdiff_sdiff_self (a b : PermSet) : (a \ b) \ b = a \ b := by
  ext1
  rw [bits_sdiff, bits_sdiff, BitVec.and_assoc, BitVec.and_self]

theorem write_subset_sdiff_own (h : write ⊆ a) : write ⊆ a \ own := by
  rw [subset_iff_getLsbD] at h ⊢
  intro i hi
  have howned : own.bits.getLsbD i = false := by
    have hdisjoint : write.bits &&& own.bits = 0#8 := by decide
    have hboth := congrArg (·.getLsbD i) hdisjoint
    simpa [hi] using hboth
  have hlt : i < 8 := BitVec.lt_of_getLsbD hi
  rw [bits_sdiff, BitVec.getLsbD_and, h i hi, BitVec.getLsbD_not, howned]
  simpa using hlt

end PermSet

/-! ## Facts along the path -/

namespace Place

theorem head?_of_extends {p q : Place} {e : Projection} (h : (p.project e).isPrefixOf q = true) :
    q.path.head? = (p.path ++ [e]).head? := by
  obtain ⟨rest, hrest⟩ := (isPrefixOf_iff.mp h).2
  rw [← hrest, project]
  cases p.path <;> rfl

theorem isVar_project (p : Place) (e : Projection) : (p.project e).isVar = false := by
  simp [isVar, project]

theorem isPrefixOf_project_iff {p q : Place} {e : Projection} :
    p.isPrefixOf (q.project e) = true ↔ p = q.project e ∨ p.isPrefixOf q = true := by
  obtain ⟨root, path⟩ := p
  simp only [isPrefixOf_iff, project, List.prefix_concat_iff, mk.injEq, and_or_left]

theorem project_inj {p q : Place} {d e : Projection} (h : p.project d = q.project e) : p = q := by
  obtain ⟨root, path⟩ := p
  obtain ⟨hroot, hpath⟩ := mk.injEq .. ▸ h
  exact mk.injEq .. ▸ ⟨hroot, (List.append_inj' hpath rfl).1⟩

/-- A step out of a place does not lead back to it. -/
theorem not_isPrefixOf_of_project {p : Place} {e : Projection} (h : (p.project e).isPrefixOf p = true) : False := by
  have hle := (isPrefixOf_iff.mp h).2.length_le
  rw [project, List.length_append, List.length_singleton] at hle
  exact Nat.not_succ_le_self _ hle

theorem ancestors_project (p : Place) (e : Projection) : (p.project e).ancestors = p :: p.ancestors := by
  have hshorter : ∀ n, n ≤ p.path.length → (p.project e).truncate n = p.truncate n := by
    intro n hn
    simp [truncate, project, List.take_append_of_le_length hn]
  have hself : p.truncate p.path.length = p := by simp [truncate]
  have hlength : (p.project e).path.length = p.path.length + 1 := by simp [project]
  rw [ancestors, hlength, List.range_succ, List.reverse_append, List.reverse_singleton,
    List.singleton_append, List.map_cons, hshorter _ (Nat.le_refl _), hself]
  refine congrArg (p :: ·) (List.map_congr_left fun n hn => hshorter n ?_)
  exact Nat.le_of_lt (List.mem_range.mp (List.mem_reverse.mp hn))

end Place

namespace Store

variable {store : Store} {decl : Declaration} {p q : Place} {facts : TypeFacts}

/-- A part without facts of its own has those of the place that it is a step out of. -/
theorem factsUnder_project (p : Place) (e : Projection) :
    store.factsUnder decl (p.project e) = (store.factsAt? (p.project e)).getD (store.factsUnder decl p) := by
  rw [factsUnder, Place.ancestors_project, List.findSome?_cons, factsUnder]
  cases store.factsAt? (p.project e) <;> rfl

theorem find?_setFacts (x : Symbol) : (store.setFacts p facts).find? x = store.find? x := rfl

theorem factsAt?_setFacts_self (hpart : p.isVar = false) : (store.setFacts p facts).factsAt? p = some facts := by
  rw [factsAt?, hpart, setFacts, List.lookup_cons_self]
  rfl

theorem factsAt?_setFacts_of_ne (h : q ≠ p) : (store.setFacts p facts).factsAt? q = store.factsAt? q := by
  have hne : (q == p) = false := beq_eq_false_iff_ne.mpr h
  rw [factsAt?, factsAt?, setFacts, List.lookup_cons, hne]
  have hothers := lookup_filter_of_key (f := (· != p)) (bne_iff_ne.mpr h) store.facts
  simp only [hothers]

end Store

/-! ## What is declared -/

/-- What a declaration gives on a place of its variable, ownership of the value aside. -/
def Declaration.gives (decl : Declaration) (p : Place) : PermSet :=
  match decl.holder, p.path.head? with
  | some kind, some .deref => kind.grants
  | _, _ => decl.perms

/-- Only an owning value is owned, so taking ownership away from what is granted for another changes nothing. -/
theorem DeclareRequest.granted_sdiff_own {request : DeclareRequest} (h : request.facts.owning = false) :
    request.granted \ .own = request.granted := by
  simp only [granted, h, Bool.false_eq_true, if_false]
  exact PermSet.sdiff_sdiff_self _ _

namespace Store

variable {store store' : Store} {p q : Place} {perms : PermSet} {decl : Declaration}

/-- Nothing at `p` or inside it is declared to permit more than `perms`. -/
def Confines (store : Store) (p : Place) (perms : PermSet) : Prop :=
  ∀ q, p.isPrefixOf q = true → ∃ granted, store.declared q = .ok granted ∧ granted ⊆ perms

theorem declared_of_find? (h : store.find? p.root = some decl) :
    store.declared p =
      .ok (if (store.factsUnder decl p).owning then decl.gives p else decl.gives p \ .own) := by
  rw [declared, rootOf, h]
  rfl

/-- What has been moved out is declared as before. -/
theorem declared_retire (p q : Place) : (store.retire p).declared q = store.declared q := by
  rw [retire]
  split
  next =>
    by_cases hroot : q.root = p.root
    · have hfind : (store.update p.root ({ · with live := false })).find? q.root =
          (store.find? q.root).map ({ · with live := false }) := by
        rw [hroot, find?_update_self]
        exact fun _ => rfl
      rw [declared, rootOf, hfind, declared, rootOf]
      cases store.find? q.root with
      | none => rfl
      | some decl => rfl
    · have hfind : (store.update p.root ({ · with live := false })).find? q.root = store.find? q.root := by
        rw [find?_update_of_ne _ hroot]
        exact fun _ => rfl
      rw [declared, rootOf, hfind]
      rfl
  next => rfl

theorem confines_retire (p : Place) : (store.retire p).Confines q perms ↔ store.Confines q perms := by
  simp only [Confines, declared_retire]

/-- Behind a variable recorded as a holder, the grant is the limit. -/
theorem confines_of_holder {kind : BorrowKind} (hvar : p.isVar = true) (hfind : store.find? p.root = some decl)
    (hholder : decl.holder = some kind) : store.Confines (p.project .deref) kind.grants := by
  intro q hq
  have hroot : q.root = p.root := (Place.root_eq_of_isPrefixOf hq).symm
  have hgives : decl.gives q = kind.grants := by
    rw [Declaration.gives, hholder, Place.head?_of_extends hq, Place.isVar_iff.mp hvar]
    rfl
  refine ⟨_, declared_of_find? (hroot ▸ hfind), ?_⟩
  rw [hgives]
  split
  · exact PermSet.subset_refl _
  · exact PermSet.sdiff_subset _ _

/-- No facts are entered for the parts of a variable that starts its life. -/
theorem factsAt?_declareVar_self {request : DeclareRequest} (h : store.declareVar p request = .ok store')
    (hroot : q.root = p.root) : store'.factsAt? q = none := by
  rw [factsAt?]
  split
  next => rfl
  next =>
    rw [List.lookup_eq_none_iff]
    intro entry hentry
    obtain ⟨-, rfl⟩ := declareVar_eq_ok_iff.mp h
    have hother : entry.1.root ≠ p.root := by simpa using (List.mem_filter.mp hentry).2
    rw [bne_iff_ne]
    rintro rfl
    exact hother hroot

theorem factsUnder_declareVar {request : DeclareRequest} (h : store.declareVar p request = .ok store')
    (hroot : q.root = p.root) (decl : Declaration) : store'.factsUnder decl q = decl.facts := by
  have hnone : ∀ r ∈ q :: q.ancestors, store'.factsAt? r = none := by
    intro r hr
    rcases List.mem_cons.mp hr with rfl | hr
    · exact factsAt?_declareVar_self h hroot
    · obtain ⟨n, -, rfl⟩ := List.mem_map.mp hr
      exact factsAt?_declareVar_self h hroot
  rw [factsUnder, List.findSome?_eq_none_iff.mpr hnone]
  rfl

/-- Behind a variable that is declared to be something other than a holder lies what the declaration grants. -/
theorem confines_declareVar_iff {request : DeclareRequest} (hholder : request.holder = none)
    (h : store.declareVar p request = .ok store') :
    store'.Confines (p.project .deref) perms ↔ request.granted ⊆ perms := by
  have hdeclared : ∀ q, (p.project .deref).isPrefixOf q = true → store'.declared q = .ok request.granted := by
    intro q hq
    have hroot : q.root = p.root := (Place.root_eq_of_isPrefixOf hq).symm
    have hgives : (request.declaration p store.nextOrder).gives q = request.granted := by
      rw [Declaration.gives]
      simp only [DeclareRequest.declaration, hholder]
    have hfind : store'.find? q.root = some (request.declaration p store.nextOrder) := by
      rw [hroot]
      exact find?_declareVar_self h
    rw [declared_of_find? hfind, factsUnder_declareVar h hroot, hgives]
    split
    next => rfl
    next howning => rw [DeclareRequest.granted_sdiff_own (Bool.not_eq_true _ ▸ howning)]
  constructor
  · intro hconfines
    obtain ⟨granted, hgranted, hsubset⟩ := hconfines _ (Place.isPrefixOf_refl _)
    rw [hdeclared _ (Place.isPrefixOf_refl _)] at hgranted
    cases hgranted
    exact hsubset
  · exact fun hsubset q hq => ⟨_, hdeclared q hq, hsubset⟩

/-! ## Behind a part -/

/-- Nothing behind the part `p` owns: neither what has facts of its own, nor the rest, which has the facts of the part. -/
def OwnsNothingBehind (store : Store) (p : Place) (facts : TypeFacts) : Prop :=
  (store.factsAt? (p.project .deref) = none → facts.owning = false) ∧
  ∀ q, (p.project .deref).isPrefixOf q = true → ∀ own, store.factsAt? q = some own → own.owning = false

/-- Behind the part `p` with the given facts, the declaration of the variable gives no more than `perms`. That it gives
ownership does not count if nothing there owns. -/
def LimitsBehind (store : Store) (p : Place) (facts : TypeFacts) (perms : PermSet) : Prop :=
  ∃ decl, store.find? p.root = some decl ∧
    (decl.gives p ⊆ perms ∨ (decl.gives p \ .own ⊆ perms ∧ store.OwnsNothingBehind p facts))

/-- Facts are handed down from the part to what has none of its own. -/
theorem ownsNothingBehind_iff : store.OwnsNothingBehind p (store.factsUnder decl p) ↔
    ∀ q, (p.project .deref).isPrefixOf q = true → (store.factsUnder decl q).owning = false := by
  constructor
  · rintro ⟨hrest, hown⟩ q
    induction q using Place.stepInduction with
    | var x =>
      intro hq
      exact absurd (List.prefix_nil.mp (Place.isPrefixOf_iff.mp hq).2) (by simp [Place.project])
    | project q e ih =>
      intro hq
      rw [factsUnder_project]
      cases hknown : store.factsAt? (q.project e) with
      | some own => exact hown _ hq own hknown
      | none =>
        rcases Place.isPrefixOf_project_iff.mp hq with hself | hinside
        · obtain rfl : p = q := Place.project_inj hself
          rw [hself] at hrest
          exact hrest hknown
        · exact ih hinside
  · intro hall
    refine ⟨fun hnone => ?_, fun q hq own hown => ?_⟩
    · have hfirst := hall _ (Place.isPrefixOf_refl _)
      rw [factsUnder_project, hnone] at hfirst
      exact hfirst
    · have hinside := hall q hq
      rw [factsUnder, List.findSome?_cons, hown] at hinside
      exact hinside

/-- A part is entered by the same first step as what lies behind it, so the declaration gives the same on both. -/
theorem gives_of_behind (decl : Declaration) (hpart : p.isVar = false) (hq : (p.project .deref).isPrefixOf q = true) :
    decl.gives q = decl.gives p := by
  rw [Declaration.gives, Declaration.gives, Place.head?_of_extends hq]
  cases hpath : p.path with
  | nil => exact absurd hpart (by simp [Place.isVar, hpath])
  | cons e path => rfl

theorem confines_iff_limitsBehind (hpart : p.isVar = false) (hfind : store.find? p.root = some decl) :
    store.Confines (p.project .deref) perms ↔ store.LimitsBehind p (store.factsUnder decl p) perms := by
  have hdeclared : ∀ q, (p.project .deref).isPrefixOf q = true →
      store.declared q = .ok (if (store.factsUnder decl q).owning then decl.gives p else decl.gives p \ .own) := by
    intro q hq
    have hroot : q.root = p.root := (Place.root_eq_of_isPrefixOf hq).symm
    rw [declared_of_find? (hroot ▸ hfind), gives_of_behind decl hpart hq]
  have hlimits : store.LimitsBehind p (store.factsUnder decl p) perms ↔ decl.gives p ⊆ perms ∨
      (decl.gives p \ .own ⊆ perms ∧
        ∀ q, (p.project .deref).isPrefixOf q = true → (store.factsUnder decl q).owning = false) := by
    rw [LimitsBehind, hfind, ownsNothingBehind_iff]
    simp
  rw [hlimits]
  constructor
  · intro hconfines
    have hwithin : ∀ q, (p.project .deref).isPrefixOf q = true →
        (if (store.factsUnder decl q).owning then decl.gives p else decl.gives p \ .own) ⊆ perms := by
      intro q hq
      obtain ⟨granted, hgranted, hsubset⟩ := hconfines q hq
      rw [hdeclared q hq] at hgranted
      cases hgranted
      exact hsubset
    by_cases howning : ∃ q, (p.project .deref).isPrefixOf q = true ∧ (store.factsUnder decl q).owning = true
    · obtain ⟨q, hq, howns⟩ := howning
      have hsubset := hwithin q hq
      rw [if_pos howns] at hsubset
      exact Or.inl hsubset
    · have hnone : ∀ q, (p.project .deref).isPrefixOf q = true → (store.factsUnder decl q).owning = false :=
        fun q hq => Bool.eq_false_iff.mpr fun howns => howning ⟨q, hq, howns⟩
      have hsubset := hwithin _ (Place.isPrefixOf_refl _)
      rw [hnone _ (Place.isPrefixOf_refl _)] at hsubset
      exact Or.inr ⟨hsubset, hnone⟩
  · rintro (hsubset | ⟨hsubset, hnone⟩) q hq
    · refine ⟨_, hdeclared q hq, ?_⟩
      split
      · exact hsubset
      · exact PermSet.subset_trans (PermSet.sdiff_subset _ _) hsubset
    · refine ⟨_, hdeclared q hq, ?_⟩
      rw [hnone q hq]
      exact hsubset

/-- The facts that a part is given are handed down, and nothing else behind it changes. -/
theorem limitsBehind_setFacts {facts : TypeFacts} :
    (store.setFacts p facts).LimitsBehind p facts perms ↔ store.LimitsBehind p facts perms := by
  have hbehind : ∀ q, (p.project .deref).isPrefixOf q = true →
      (store.setFacts p facts).factsAt? q = store.factsAt? q := by
    intro q hq
    refine factsAt?_setFacts_of_ne ?_
    rintro rfl
    exact Place.not_isPrefixOf_of_project hq
  have howns : (store.setFacts p facts).OwnsNothingBehind p facts ↔ store.OwnsNothingBehind p facts := by
    rw [OwnsNothingBehind, OwnsNothingBehind, hbehind _ (Place.isPrefixOf_refl _)]
    exact and_congr_right fun _ => forall₂_congr fun q hq => by rw [hbehind q hq]
  simp only [LimitsBehind, find?_setFacts, howns]

/-- A value that is put into a part is confined by what the variable gives there, with the facts of the value. -/
theorem confines_setFacts_iff {facts : TypeFacts} (hpart : p.isVar = false) (hfind : store.find? p.root = some decl) :
    (store.setFacts p facts).Confines (p.project .deref) perms ↔ store.LimitsBehind p facts perms := by
  have hfacts : (store.setFacts p facts).factsUnder decl p = facts := by
    rw [factsUnder, List.findSome?_cons, factsAt?_setFacts_self hpart]
    rfl
  rw [confines_iff_limitsBehind hpart ((find?_setFacts _).trans hfind), hfacts, limitsBehind_setFacts]

/-- A part that may be written gives writing behind a reference stored in it, too. -/
theorem not_confines_of_write {ledger : Ledger} (hpart : p.isVar = false) (hlive : store.Live p)
    (hperms : store.permissions ledger p = .ok perms) (hwrite : PermSet.write ⊆ perms) :
    ¬ store.Confines (p.project .deref) .read := by
  intro hconfines
  obtain ⟨decl, hfind, -⟩ := alive_iff.mp (live_iff.mp hlive).1
  obtain ⟨granted, hgranted, hread⟩ := hconfines _ (Place.isPrefixOf_refl _)
  have hgives : decl.gives (p.project .deref) = decl.gives p := gives_of_behind decl hpart (Place.isPrefixOf_refl _)
  have hwrite' : PermSet.write ⊆ decl.gives p := by
    rw [permissions_of_live hlive, declared_of_find? hfind] at hperms
    cases hperms
    have hdeclared := PermSet.subset_trans hwrite (PermSet.sdiff_subset _ _)
    split at hdeclared
    · exact hdeclared
    · exact PermSet.subset_trans hdeclared (PermSet.sdiff_subset _ _)
  have hbehind : PermSet.write ⊆ granted := by
    have hfind' : store.find? (p.project .deref).root = some decl := hfind
    rw [declared_of_find? hfind', hgives] at hgranted
    cases hgranted
    split
    · exact hwrite'
    · exact PermSet.write_subset_sdiff_own hwrite'
  exact absurd (PermSet.subset_trans hbehind hread) (by decide)

end Store

namespace Session

variable {s : Session} {kind : BorrowKind}

/-- The operation stores a reference of the given kind into a place: it borrows, or binds the place to a variable that
holds one. -/
inductive Stores (s : Session) : Operation → BorrowKind → Place → Prop where
  | borrow {source holder : Place} {kind : BorrowKind} {region : Region} :
      Stores s (.borrow source kind holder region) kind holder
  | bind {target source : Place} {init : Init} {mutable : Bool} {perms : PermSet} {facts : TypeFacts}
      {kind : BorrowKind} :
      init = .move source ∨ init = .copy source → s.heldKind? source = some kind →
      Stores s (.bind target init mutable perms facts) kind target

/-- When a reference of the given kind keeps to its grant. Stored into a variable, a new or a moved one does, and a copy
does if it is declared with no more. Stored into a part, it does if the variable gives no more behind the part anyway,
which a part that takes a shared reference from a borrow never meets. -/
def KeepsGrant (s : Session) (kind : BorrowKind) : Operation → Prop
  | .borrow _ _ holder _ =>
    holder.isVar = true ∨ (kind = .exclusive ∧ s.store.LimitsBehind holder (s.factsOf holder) .readWrite)
  | .bind target init mutable perms facts =>
    if target.isVar then
      (s.movedFrom? init).isSome = true ∨
        (⟨perms, mutable, facts, s.currentScope, none⟩ : DeclareRequest).granted ⊆ kind.grants
    else s.store.LimitsBehind target (if (s.movedFrom? init).isSome then .reference kind else facts) kind.grants
  | _ => True

theorem borrow_confines_iff {source holder : Place} {region : Region}
    (hok : (s.borrow source kind holder region).1 = none) :
    (s.borrow source kind holder region).2.store.Confines (holder.project .deref) kind.grants ↔
      s.KeepsGrant kind (.borrow source kind holder region) := by
  obtain ⟨stop, id, ledger, -, -, hprepare⟩ := borrow_accepted hok
  rw [KeepsGrant]
  rcases (prepareHolder_cases hprepare).2 with
    ⟨hpart, haccess, hborrow⟩ | ⟨hvar, store, hassign, hborrow⟩ | ⟨hvar, store, hdeclare, hborrow⟩
  · -- the store is as before, and the part is writable, so no shared reference fits
    rw [hborrow, hpart]
    change s.store.Confines (holder.project .deref) kind.grants ↔ _
    obtain ⟨hlive, perms, hperms, hwrite⟩ := checkAccess_eq_ok_iff.mp haccess
    have hinBeing : s.store.Live holder := (checkLive_eq_ok_iff.mp hlive).2
    cases kind with
    | exclusive =>
      obtain ⟨decl, hfind, -⟩ := Store.alive_iff.mp (Store.live_iff.mp hinBeing).1
      have hfacts : s.factsOf holder = s.store.factsUnder decl holder := by
        rw [factsOf, Store.factsOf?, hfind]
        rfl
      rw [hfacts, BorrowKind.grants, Store.confines_iff_limitsBehind hpart hfind]
      simp
    | shared =>
      have hmore : ¬ s.store.Confines (holder.project .deref) .read :=
        Store.not_confines_of_write hpart hinBeing hperms hwrite
      simpa [BorrowKind.grants] using hmore
  · rw [hborrow]
    obtain ⟨decl, hfind, -, hholder⟩ := Store.find?_assignHolder hassign
    exact iff_of_true (Store.confines_of_holder hvar hfind hholder) (Or.inl hvar)
  · rw [hborrow]
    rcases Store.declare_eq_ok_iff.mp hdeclare with ⟨-, hdeclared⟩ | ⟨hpart, -⟩
    · exact iff_of_true (Store.confines_of_holder hvar (Store.find?_declareVar_self hdeclared) rfl) (Or.inl hvar)
    · rw [hvar] at hpart
      exact Bool.noConfusion hpart

theorem eq_of_movedFrom? {init : Init} {p source : Place} (hinit : init = .move source ∨ init = .copy source)
    (h : s.movedFrom? init = some p) : p = source := by
  rcases hinit with rfl | rfl
  · cases h
    rfl
  · rw [movedFrom?] at h
    split at h
    · exact absurd h (by simp)
    · cases h
      rfl

/-- A reference that moves is declared as one, and a copy is declared as the binding says. -/
theorem bindRequest_of_held {source : Place} {init : Init} {mutable : Bool} {perms : PermSet} {facts : TypeFacts}
    (hinit : init = .move source ∨ init = .copy source) (hheld : s.heldKind? source = some kind) :
    s.bindRequest ((s.movedFrom? init).bind s.heldKind?) mutable perms facts =
      if (s.movedFrom? init).isSome then ⟨kind.grants, mutable, .reference kind, s.currentScope, some kind⟩
      else ⟨perms, mutable, facts, s.currentScope, none⟩ := by
  cases hmoved : s.movedFrom? init with
  | none => rfl
  | some p =>
    rw [eq_of_movedFrom? hinit hmoved, Option.bind_some, hheld]
    rfl

theorem bind_confines_iff {target source : Place} {init : Init} {mutable : Bool} {perms : PermSet} {facts : TypeFacts}
    (hinit : init = .move source ∨ init = .copy source) (hheld : s.heldKind? source = some kind)
    (hok : (s.bind target init mutable perms facts).1 = none) :
    (s.bind target init mutable perms facts).2.store.Confines (target.project .deref) kind.grants ↔
      s.KeepsGrant kind (.bind target init mutable perms facts) := by
  obtain ⟨origin, store, hcheck, hstore, hbind⟩ := bind_accepted hok
  have hmoved : s.movedFrom? init = origin := movedFrom?_of_checkInit hcheck
  -- moving the value out of its source does not touch what is declared
  have hafter : (s.bind target init mutable perms facts).2.store.Confines (target.project .deref) kind.grants ↔
      store.Confines (target.project .deref) kind.grants := by
    rw [hbind]
    cases origin with
    | none => exact Iff.rfl
    | some p =>
      change (Registry.relocate _ p target _).store.Confines _ _ ↔ _
      rw [Registry.store_relocate, Store.confines_retire]
  rw [hafter, KeepsGrant]
  rw [← hmoved, bindRequest_of_held hinit hheld] at hstore
  rcases Store.declare_eq_ok_iff.mp hstore with ⟨hvar, hdeclared⟩ | ⟨hpart, hput⟩
  · rw [if_pos hvar]
    cases horigin : (s.movedFrom? init).isSome with
    | true =>
      rw [horigin] at hdeclared
      exact iff_of_true (Store.confines_of_holder hvar (Store.find?_declareVar_self hdeclared) rfl) (Or.inl rfl)
    | false =>
      rw [horigin] at hdeclared
      rw [Store.confines_declareVar_iff rfl hdeclared]
      simp
  · rw [hpart]
    obtain ⟨⟨decl, hfind, -⟩, -, -, rfl⟩ := Store.reinitialise_eq_ok_iff.mp hput
    have hfind' : ({ s.store with retired := s.store.retired.filter (!target.isPrefixOf ·) } : Store).find? target.root =
        some decl := hfind
    cases (s.movedFrom? init).isSome with
    | true => exact Store.confines_setFacts_iff hpart hfind'
    | false => exact Store.confines_setFacts_iff hpart hfind'

/-- **A reference gives what it grants** exactly where the grant is kept. After an operation that stores a reference of
some kind, everything behind the place it is stored into is declared to permit at most the grant of that kind if and only
if the operation keeps to it. -/
theorem stored_reference_confined_iff {op : Operation} {h : Place} (hstores : s.Stores op kind h)
    (hok : (s.step op).1 = .ok) :
    (s.step op).2.store.Confines (h.project .deref) kind.grants ↔ s.KeepsGrant kind op := by
  obtain ⟨-, hnone, hstep⟩ := step_accepted hok
  rw [hstep]
  cases hstores with
  | borrow => exact borrow_confines_iff (s := s.refreshed) hnone
  | bind hinit hheld => exact bind_confines_iff (s := s.refreshed) hinit hheld hnone

/-- A shared reference that moves from one variable to another. -/
theorem moved_shared_reference_confined :
    let s := (({} : Session).stepAll [.bindFreshMut (.var ⟨0⟩), .borrowShared (.var ⟨0⟩) (.var ⟨1⟩) (.scope .root)]).2
    let op : Operation := .bindMove (.var ⟨2⟩) (.var ⟨1⟩)
    s.Stores op .shared (.var ⟨2⟩) ∧ (s.step op).1 = .ok ∧
    (s.step op).2.store.Confines ⟨⟨2⟩, [.deref]⟩ BorrowKind.shared.grants := by
  intro s op
  have hstores : s.Stores op .shared (.var ⟨2⟩) := .bind (Or.inl rfl) (by decide)
  have hok : (s.step op).1 = .ok := by decide
  have hkeeps : s.KeepsGrant .shared op := Or.inl rfl
  exact ⟨hstores, hok, (stored_reference_confined_iff hstores hok).mpr hkeeps⟩

/-- A shared reference in a field: the record is owned, and so is what lies behind the reference. -/
theorem shared_reference_in_field_gives_all :
    let s := (({} : Session).stepAll [.bindFreshMut (.var ⟨0⟩), .bindFreshMut (.var ⟨1⟩)]).2
    let op : Operation := .borrowShared (.var ⟨0⟩) ⟨⟨1⟩, [.field ⟨2⟩]⟩ (.scope .root)
    s.Stores op .shared ⟨⟨1⟩, [.field ⟨2⟩]⟩ ∧ (s.step op).1 = .ok ∧
    (s.step op).2.store.declared ⟨⟨1⟩, [.field ⟨2⟩, .deref]⟩ = .ok .all ∧
    ¬ (s.step op).2.store.Confines ⟨⟨1⟩, [.field ⟨2⟩, .deref]⟩ BorrowKind.shared.grants := by
  intro s op
  have hall : (s.step op).2.store.declared ⟨⟨1⟩, [.field ⟨2⟩, .deref]⟩ = .ok .all := by decide
  refine ⟨.borrow, by decide, hall, fun hconfines => ?_⟩
  obtain ⟨granted, hgranted, hread⟩ := hconfines _ (Place.isPrefixOf_refl _)
  rw [hall] at hgranted
  cases hgranted
  exact absurd hread (by decide)

end Session

end BorrowChecker
