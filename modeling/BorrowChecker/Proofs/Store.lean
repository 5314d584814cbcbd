import BorrowChecker.Proofs.Overlap
import BorrowChecker.Variable.Store

/-!
# Lives of variables and their parts

What each change of the store does to the liveness of places. A declaration only brings storage to life. Moving a
place out ends the life of exactly the places that overlap it. Facts and references that are stored change no life.

Two notions serve later: a place is vacant while nothing in the store can make it live again but a declaration of
itself or of a place on the way to it, and two stores agree on a variable if they answer every question about its
parts alike.
-/

namespace BorrowChecker

/-- The declaration that a request for the variable `p` makes, as the one numbered `order`. -/
def DeclareRequest.declaration (request : DeclareRequest) (p : Place) (order : Nat) : Declaration where
  name := p.root
  place := p
  perms := request.granted
  facts := request.facts
  scope := request.scope
  order := order
  mutable := request.mutable
  holder := request.holder
  live := true

namespace Store

def IsDeclared (store : Store) (x : Symbol) : Prop := (store.find? x).isSome = true

/-- Whether the variable is declared and has not been moved out or dropped as a whole. -/
def Alive (store : Store) (x : Symbol) : Prop := (store.find? x).any (·.live) = true

/-- Whether the store finds all of the place in being. -/
def Live (store : Store) (p : Place) : Prop := (store.checkLive p).isOk = true

/-- Whether the place has been moved out: as a variable that is not alive, or as a part. -/
def Vacant (store : Store) (p : Place) : Prop := (p.isVar = true ∧ ¬ store.Alive p.root) ∨ p ∈ store.retired

theorem alive_iff {store : Store} {x : Symbol} :
    store.Alive x ↔ ∃ decl, store.find? x = some decl ∧ decl.live = true := by
  rw [Alive]
  cases store.find? x <;> simp

theorem live_iff_exists {store : Store} {p : Place} : store.Live p ↔ ∃ decl, store.checkLive p = .ok decl := by
  rw [Live]
  cases store.checkLive p with
  | error e => simp [Except.isOk, Except.toBool]
  | ok decl => simp [Except.isOk, Except.toBool]

theorem live_iff {store : Store} {p : Place} :
    store.Live p ↔ store.Alive p.root ∧ ∀ r ∈ store.retired, r.overlaps p = false := by
  rw [live_iff_exists, alive_iff]
  constructor
  · rintro ⟨decl, hdecl⟩
    obtain ⟨hfind, hlive, hretired⟩ := checkLive_eq_ok_iff.mp hdecl
    exact ⟨⟨decl, hfind, hlive⟩, hretired⟩
  · rintro ⟨⟨decl, hfind, hlive⟩, hretired⟩
    exact ⟨decl, checkLive_eq_ok_iff.mpr ⟨hfind, hlive, hretired⟩⟩

/-- Something is declared of every live place. -/
theorem declared_of_live {store : Store} {p : Place} (h : store.Live p) :
    ∃ declared, store.declared p = .ok declared := by
  obtain ⟨decl, hfind, -⟩ := alive_iff.mp (live_iff.mp h).1
  rw [declared, rootOf, hfind]
  exact ⟨_, rfl⟩

/-- While a place is live, it permits what is declared less what loans suspend. -/
theorem permissions_of_live {store : Store} {p : Place} (h : store.Live p) (ledger : Ledger) :
    store.permissions ledger p = (store.declared p).map (· \ ledger.suspended p) := by
  obtain ⟨decl, hcheck⟩ := live_iff_exists.mp h
  rw [permissions, hcheck]

/-- Nothing that overlaps a vacant place is live. -/
theorem Vacant.not_live {store : Store} {p q : Place} (h : store.Vacant p) (hoverlap : p.overlaps q = true) :
    ¬ store.Live q := by
  rw [live_iff]
  rintro ⟨halive, hretired⟩
  rcases h with ⟨-, hdead⟩ | hmem
  · rw [Place.root_of_overlaps hoverlap] at hdead
    exact hdead halive
  · rw [hretired p hmem] at hoverlap
    exact Bool.false_ne_true hoverlap

/-! ## Declarations -/

section updates

variable {store store' : Store} {x y : Symbol}

/-- An update leaves the list of what it does not change about any declaration. -/
theorem map_decls_update {β : Type} {f : Declaration → Declaration} {g : Declaration → β}
    (hg : ∀ decl, g (f decl) = g decl) : (store.update x f).decls.map g = store.decls.map g := by
  rw [update, List.map_map]
  refine List.map_congr_left fun decl _ => ?_
  rw [Function.comp_apply]
  split
  · exact hg decl
  · rfl

theorem find?_update_of_ne {f : Declaration → Declaration} (hf : ∀ decl, (f decl).name = decl.name) (h : y ≠ x) :
    (store.update x f).find? y = store.find? y := by
  simp only [find?, update]
  induction store.decls with
  | nil => rfl
  | cons decl decls ih =>
    rw [List.map_cons, List.find?_cons, List.find?_cons, ih]
    by_cases hx : decl.name = x
    · have hy : (decl.name == y) = false := by
        rw [beq_eq_false_iff_ne, hx]
        exact h.symm
      rw [if_pos hx, hf, hy]
    · rw [if_neg hx]

theorem find?_update_self {f : Declaration → Declaration} (hf : ∀ decl, (f decl).name = decl.name) :
    (store.update x f).find? x = (store.find? x).map f := by
  simp only [find?, update]
  induction store.decls with
  | nil => rfl
  | cons decl decls ih =>
    rw [List.map_cons, List.find?_cons, List.find?_cons]
    by_cases hx : decl.name = x
    · simp [hx, hf]
    · have hx' : (decl.name == x) = false := beq_eq_false_iff_ne.mpr hx
      rw [if_neg hx, hx', ih]

/-- A declaration of a variable succeeds if the variable is not alive, and then starts from nothing. -/
theorem declareVar_eq_ok_iff {p : Place} {request : DeclareRequest} :
    store.declareVar p request = .ok store' ↔
      ¬ store.Alive p.root ∧
      store' = {
        decls := store.decls.filter (·.name != p.root) ++ [request.declaration p store.nextOrder]
        retired := store.retired.filter (·.root != p.root)
        facts := store.facts.filter (·.1.root != p.root)
        nextOrder := store.nextOrder + 1 } := by
  rw [declareVar, Alive]
  split
  next h => simp [h]
  next h => simp [h, eq_comm, DeclareRequest.declaration]

theorem find?_declareVar_of_ne {p : Place} {request : DeclareRequest} (h : store.declareVar p request = .ok store')
    (hne : y ≠ p.root) :
    store'.find? y = store.find? y := by
  obtain ⟨-, rfl⟩ := declareVar_eq_ok_iff.mp h
  have hfilter : (store.decls.filter (·.name != p.root)).find? (·.name == y) = store.decls.find? (·.name == y) := by
    rw [List.find?_filter]
    congr 1
    funext decl
    by_cases hy : decl.name = y
    · simp [hy, hne]
    · simp [hy]
  have hnew : ((request.declaration p store.nextOrder).name == y) = false := beq_eq_false_iff_ne.mpr hne.symm
  simp only [find?, List.find?_append, hfilter, List.find?_cons, hnew, List.find?_nil, Option.or_none]

theorem find?_declareVar_self {p : Place} {request : DeclareRequest} (h : store.declareVar p request = .ok store') :
    store'.find? p.root = some (request.declaration p store.nextOrder) := by
  obtain ⟨-, rfl⟩ := declareVar_eq_ok_iff.mp h
  have hnone : (store.decls.filter (·.name != p.root)).find? (·.name == p.root) = none := by
    rw [List.find?_eq_none]
    intro decl hdecl
    have hname := (List.mem_filter.mp hdecl).2
    simpa using hname
  have hself : ((request.declaration p store.nextOrder).name == p.root) = true := beq_self_eq_true p.root
  simp only [find?, List.find?_append, hnone, List.find?_cons, hself, Option.none_or]

/-- A value can be put back into a part if its variable is alive and writable, something of the part has been moved
out, and nothing else that has been moved out overlaps it. -/
theorem reinitialise_eq_ok_iff {p : Place} {request : DeclareRequest} :
    store.reinitialise p request = .ok store' ↔
      (∃ decl, store.find? p.root = some decl ∧ decl.live = true ∧ PermSet.write ⊆ decl.perms) ∧
      (∀ r ∈ store.retired, p.overlaps r = true → p.isPrefixOf r = true) ∧
      (∃ r ∈ store.retired, p.isPrefixOf r = true) ∧
      store' = { store with retired := store.retired.filter (!p.isPrefixOf ·) }.setFacts p request.facts := by
  have hblocked : (store.retired.any fun r => !p.isPrefixOf r && p.overlaps r) = true ↔
      ¬ ∀ r ∈ store.retired, p.overlaps r = true → p.isPrefixOf r = true := by
    simp [and_comm]
  have hmoved : store.retired.any (p.isPrefixOf ·) = true ↔ ∃ r ∈ store.retired, p.isPrefixOf r = true :=
    List.any_eq_true
  rw [reinitialise, rootOf]
  cases store.find? p.root with
  | none => simp
  | some decl =>
    simp only [Bool.not_eq_true', hblocked, ← Bool.not_eq_true, hmoved, Option.some.injEq, exists_eq_left']
    split_ifs with hlive hwrite hclear hany
    · rw [Except.ok.injEq, eq_comm]
      exact ⟨fun h => ⟨⟨hlive, hwrite⟩, hclear, hany, h⟩, fun h => h.2.2.2⟩
    · simp [hany]
    · simp [hclear]
    · simp [hwrite]
    · simp [hlive]

theorem declare_eq_ok_iff {p : Place} {request : DeclareRequest} :
    store.declare p request = .ok store' ↔
      (p.isVar = true ∧ store.declareVar p request = .ok store') ∨
      (p.isVar = false ∧ store.reinitialise p request = .ok store') := by
  rw [declare]
  cases p.isVar <;> simp

/-- A reference can be stored into a variable that is alive and mutable. -/
theorem assignHolder_eq_ok_iff {kind : BorrowKind} :
    store.assignHolder x kind = .ok store' ↔
      (∃ decl, store.find? x = some decl ∧ decl.live = true ∧ decl.mutable = true) ∧
      store' = store.update x fun decl =>
        { decl with perms := .readWrite, facts := .reference kind, holder := some kind } := by
  rw [assignHolder]
  cases store.find? x with
  | none => simp
  | some decl =>
    simp only [Bool.not_eq_true', ← Bool.not_eq_true, Option.some.injEq, exists_eq_left']
    split_ifs with hlive hmutable
    · rw [Except.ok.injEq, eq_comm]
      exact ⟨fun h => ⟨⟨hlive, hmutable⟩, h⟩, fun h => h.2⟩
    · simp [hmutable]
    · simp [hlive]

/-- The variable lives on and is a holder of the reference's kind. -/
theorem find?_assignHolder {kind : BorrowKind} (h : store.assignHolder x kind = .ok store') :
    ∃ decl, store'.find? x = some decl ∧ decl.live = true ∧ decl.holder = some kind := by
  obtain ⟨⟨decl, hfind, hlive, -⟩, rfl⟩ := assignHolder_eq_ok_iff.mp h
  refine ⟨{ decl with perms := .readWrite, facts := .reference kind, holder := some kind }, ?_, hlive, rfl⟩
  rw [find?_update_self, hfind]
  · rfl
  · exact fun _ => rfl

theorem registerFacts_eq_ok_iff {p : Place} {facts : TypeFacts} :
    store.registerFacts p facts = .ok store' ↔
      (store.find? p.root).isSome = true ∧ store' = store.setFacts p facts := by
  rw [registerFacts, rootOf]
  cases store.find? p.root <;> simp [eq_comm]

end updates

/-! ## What changes do to lives -/

section lives

variable {store store' : Store} {p q : Place} {x : Symbol}

theorem live_congr (halive : ∀ x, store'.Alive x ↔ store.Alive x) (hretired : store'.retired = store.retired) :
    store'.Live p ↔ store.Live p := by
  rw [live_iff, live_iff, halive, hretired]

theorem vacant_congr (halive : ∀ x, store'.Alive x ↔ store.Alive x) (hretired : store'.retired = store.retired) :
    store'.Vacant p ↔ store.Vacant p := by
  rw [Vacant, Vacant, halive, hretired]

theorem alive_setFacts {facts : TypeFacts} : (store.setFacts p facts).Alive x ↔ store.Alive x := Iff.rfl

theorem alive_assignHolder {y : Symbol} {kind : BorrowKind} (h : store.assignHolder y kind = .ok store') :
    store'.Alive x ↔ store.Alive x := by
  obtain ⟨-, rfl⟩ := assignHolder_eq_ok_iff.mp h
  by_cases hx : x = y
  · subst hx
    rw [Alive, Alive, find?_update_self, Option.any_map]
    exact fun _ => rfl
  · rw [Alive, Alive, find?_update_of_ne _ hx]
    exact fun _ => rfl

theorem retired_of_assignHolder {kind : BorrowKind} (h : store.assignHolder x kind = .ok store') :
    store'.retired = store.retired := by
  obtain ⟨-, rfl⟩ := assignHolder_eq_ok_iff.mp h
  rfl

/-- A declaration ends no life. -/
theorem alive_of_declare {request : DeclareRequest} (h : store.declare p request = .ok store') (halive : store.Alive x) :
    store'.Alive x := by
  rcases declare_eq_ok_iff.mp h with ⟨-, hvar⟩ | ⟨-, hpart⟩
  · by_cases hx : x = p.root
    · -- only what is not alive can be declared
      subst hx
      exact absurd halive (declareVar_eq_ok_iff.mp hvar).1
    · rw [Alive, find?_declareVar_of_ne hvar hx]
      exact halive
  · obtain ⟨-, -, -, rfl⟩ := reinitialise_eq_ok_iff.mp hpart
    exact halive

theorem retired_subset_of_declare {request : DeclareRequest} (h : store.declare p request = .ok store') :
    store'.retired ⊆ store.retired := by
  intro r hr
  rcases declare_eq_ok_iff.mp h with ⟨-, hvar⟩ | ⟨-, hpart⟩
  · obtain ⟨-, rfl⟩ := declareVar_eq_ok_iff.mp hvar
    exact List.mem_of_mem_filter hr
  · obtain ⟨-, -, -, rfl⟩ := reinitialise_eq_ok_iff.mp hpart
    exact List.mem_of_mem_filter hr

theorem live_of_declare {request : DeclareRequest} (h : store.declare p request = .ok store') (hlive : store.Live q) :
    store'.Live q := by
  rw [live_iff] at hlive ⊢
  exact ⟨alive_of_declare h hlive.1, fun r hr => hlive.2 r (retired_subset_of_declare h hr)⟩

theorem alive_retire_iff : (store.retire p).Alive x ↔ store.Alive x ∧ ¬ (p.isVar = true ∧ x = p.root) := by
  rw [retire]
  cases hvar : p.isVar with
  | false => simp [Alive, find?]
  | true =>
    by_cases hx : x = p.root
    · subst hx
      rw [if_pos rfl, Alive, find?_update_self, Option.any_map]
      · simp
      · exact fun _ => rfl
    · rw [if_pos rfl, Alive, find?_update_of_ne _ hx]
      · simp [Alive, hx]
      · exact fun _ => rfl

/-- Moving a place out ends the life of exactly the places that overlap it. -/
theorem live_retire_iff : (store.retire p).Live q ↔ store.Live q ∧ p.overlaps q = false := by
  rw [live_iff, live_iff, alive_retire_iff]
  cases hvar : p.isVar with
  | true =>
    -- the whole variable: the list of parts stays, and the variable is what overlaps
    have hretired : (store.retire p).retired = store.retired := by rw [retire, if_pos hvar]; rfl
    have hoverlap : p.overlaps q = false ↔ ¬ q.root = p.root := by
      rw [Place.overlaps_of_isVar hvar, beq_eq_false_iff_ne, ne_comm]
    rw [hretired, hoverlap]
    simp only [true_and]
    exact and_right_comm
  | false =>
    have hretired : (store.retire p).retired = store.retired.insert p := by rw [retire, hvar]; rfl
    rw [hretired]
    simp only [Bool.false_eq_true, false_and, not_false_eq_true, and_true, List.mem_insert_iff]
    constructor
    · rintro ⟨halive, hall⟩
      exact ⟨⟨halive, fun r hr => hall r (Or.inr hr)⟩, hall p (Or.inl rfl)⟩
    · rintro ⟨⟨halive, hall⟩, hp⟩
      refine ⟨halive, fun r hr => ?_⟩
      rcases hr with rfl | hr
      · exact hp
      · exact hall r hr

end lives

/-! ## Places of declarations -/

section placed

variable {store store' : Store} {p : Place}

theorem isDeclared_of_declare {request : DeclareRequest} (h : store.declare p request = .ok store') {x : Symbol}
    (hx : store.IsDeclared x) : store'.IsDeclared x := by
  rcases declare_eq_ok_iff.mp h with ⟨-, hvar⟩ | ⟨-, hpart⟩
  · rw [IsDeclared]
    by_cases hroot : x = p.root
    · rw [hroot, find?_declareVar_self hvar]
      rfl
    · rw [find?_declareVar_of_ne hvar hroot]
      exact hx
  · obtain ⟨-, -, -, rfl⟩ := reinitialise_eq_ok_iff.mp hpart
    exact hx

theorem isDeclared_update {x y : Symbol} {f : Declaration → Declaration} (hf : ∀ decl, (f decl).name = decl.name) :
    (store.update x f).IsDeclared y ↔ store.IsDeclared y := by
  rw [IsDeclared, IsDeclared]
  by_cases hy : y = x
  · rw [hy, find?_update_self hf, Option.isSome_map]
  · rw [find?_update_of_ne hf hy]

/-- Every declaration is of the whole variable that it is kept under. -/
def Placed (store : Store) : Prop := ∀ decl ∈ store.decls, decl.place = .var decl.name

theorem Placed.isVar (h : store.Placed) (hp : p ∈ store.decls.map (·.place)) : p.isVar = true := by
  obtain ⟨decl, hdecl, rfl⟩ := List.mem_map.mp hp
  rw [h decl hdecl]
  rfl

theorem places_retire (store : Store) (p : Place) :
    (store.retire p).decls.map (·.place) = store.decls.map (·.place) := by
  rw [retire]
  split
  · exact map_decls_update fun _ => rfl
  · rfl

theorem Placed.update (h : store.Placed) {x : Symbol} {f : Declaration → Declaration}
    (hname : ∀ decl, (f decl).name = decl.name) (hplace : ∀ decl, (f decl).place = decl.place) :
    (store.update x f).Placed := by
  intro decl hdecl
  obtain ⟨old, hold, rfl⟩ := List.mem_map.mp hdecl
  split
  · rw [hplace, hname]
    exact h old hold
  · exact h old hold

theorem Placed.retire (h : store.Placed) (p : Place) : (store.retire p).Placed := by
  rw [Store.retire]
  split
  · exact h.update (fun _ => rfl) fun _ => rfl
  · exact h

/-- Only a whole variable is declared under its name. -/
theorem Placed.declare (h : store.Placed) {request : DeclareRequest} (hstore : store.declare p request = .ok store') :
    store'.Placed := by
  rcases declare_eq_ok_iff.mp hstore with ⟨hvar, hdeclared⟩ | ⟨-, hpart⟩
  · obtain ⟨-, rfl⟩ := declareVar_eq_ok_iff.mp hdeclared
    intro decl hdecl
    rcases List.mem_append.mp hdecl with hold | hnew
    · exact h decl (List.mem_of_mem_filter hold)
    · rw [List.mem_singleton.mp hnew]
      exact Place.eq_var hvar
  · obtain ⟨-, -, -, rfl⟩ := reinitialise_eq_ok_iff.mp hpart
    exact h

theorem Placed.assignHolder (h : store.Placed) {x : Symbol} {kind : BorrowKind}
    (hstore : store.assignHolder x kind = .ok store') : store'.Placed := by
  obtain ⟨-, rfl⟩ := assignHolder_eq_ok_iff.mp hstore
  exact h.update (fun _ => rfl) fun _ => rfl

end placed

/-! ## Vacant places -/

section vacancy

variable {store store' : Store} {p q : Place}

theorem vacant_retire : (store.retire p).Vacant p := by
  cases hvar : p.isVar with
  | true =>
    refine Or.inl ⟨hvar, ?_⟩
    rw [alive_retire_iff]
    exact fun h => h.2 ⟨hvar, rfl⟩
  | false =>
    right
    rw [retire, hvar]
    exact List.mem_insert_self

theorem Vacant.retire (h : store.Vacant p) (q : Place) : (store.retire q).Vacant p := by
  rcases h with ⟨hvar, hdead⟩ | hmem
  · refine Or.inl ⟨hvar, ?_⟩
    rw [alive_retire_iff]
    exact fun halive => hdead halive.1
  · right
    rw [Store.retire]
    split
    · exact hmem
    · exact List.mem_insert_of_mem hmem

/-- A vacant place stays vacant while neither it nor a place on the way to it is declared. -/
theorem Vacant.declare (h : store.Vacant p) {request : DeclareRequest} (hdecl : store.declare q request = .ok store')
    (hq : q.isPrefixOf p = false) : store'.Vacant p := by
  rcases declare_eq_ok_iff.mp hdecl with ⟨hvar, hdeclVar⟩ | ⟨-, hpart⟩
  · -- a declaration of a whole variable clears the parts of that variable, and `p` is not one of them
    have hroot : p.root ≠ q.root := by
      intro heq
      rw [Place.isPrefixOf_of_isVar hvar heq.symm] at hq
      exact Bool.noConfusion hq
    rcases h with ⟨hpvar, hdead⟩ | hmem
    · refine Or.inl ⟨hpvar, ?_⟩
      rw [Alive, find?_declareVar_of_ne hdeclVar hroot]
      exact hdead
    · right
      obtain ⟨-, rfl⟩ := declareVar_eq_ok_iff.mp hdeclVar
      exact List.mem_filter.mpr ⟨hmem, bne_iff_ne.mpr hroot⟩
  · obtain ⟨-, -, -, rfl⟩ := reinitialise_eq_ok_iff.mp hpart
    rcases h with hdead | hmem
    · exact Or.inl hdead
    · exact Or.inr (List.mem_filter.mpr ⟨hmem, by rw [hq]; rfl⟩)

end vacancy

/-! ## Agreement on a variable -/

/-- The two stores have the same declaration of `x`, and the same parts of it moved out and described. -/
structure Agree (x : Symbol) (a b : Store) : Prop where
  find : b.find? x = a.find? x
  retired : ∀ r : Place, r.root = x → (r ∈ b.retired ↔ r ∈ a.retired)
  facts : ∀ p : Place, p.root = x → b.facts.lookup p = a.facts.lookup p

theorem lookup_filter_of_key {f : Place → Bool} {p : Place} (h : f p = true) (entries : List (Place × TypeFacts)) :
    (entries.filter (f ·.1)).lookup p = entries.lookup p := by
  induction entries with
  | nil => rfl
  | cons entry entries ih =>
    by_cases hentry : f entry.1 = true
    · rw [List.filter_cons, if_pos hentry, List.lookup_cons, List.lookup_cons, ih]
    · have hne : (p == entry.1) = false := by
        rw [beq_eq_false_iff_ne]
        rintro rfl
        exact hentry h
      rw [List.filter_cons, if_neg hentry, List.lookup_cons, hne, ih]

theorem Agree.refl (x : Symbol) (store : Store) : Agree x store store :=
  ⟨rfl, fun _ _ => Iff.rfl, fun _ _ => rfl⟩

theorem Agree.trans {x : Symbol} {a b c : Store} (hab : Agree x a b) (hbc : Agree x b c) : Agree x a c :=
  ⟨hbc.find.trans hab.find, fun r hr => (hbc.retired r hr).trans (hab.retired r hr),
    fun p hp => (hbc.facts p hp).trans (hab.facts p hp)⟩

theorem agree_update {store : Store} {x y : Symbol} {f : Declaration → Declaration}
    (hf : ∀ decl, (f decl).name = decl.name) (hx : x ≠ y) : Agree x store (store.update y f) :=
  ⟨find?_update_of_ne hf hx, fun _ _ => Iff.rfl, fun _ _ => rfl⟩

theorem agree_setFacts {store : Store} {p : Place} {x : Symbol} (facts : TypeFacts) (hx : x ≠ p.root) :
    Agree x store (store.setFacts p facts) := by
  refine ⟨rfl, fun _ _ => Iff.rfl, fun q hq => ?_⟩
  have hne : (q == p) = false := by
    rw [beq_eq_false_iff_ne]
    rintro rfl
    exact hx hq.symm
  simp only [setFacts, List.lookup_cons, hne]
  exact lookup_filter_of_key (f := (· != p)) (by simpa using hne) _

/-- Moving something out changes nothing about other variables. -/
theorem agree_retire {store : Store} {p : Place} {x : Symbol} (hx : x ≠ p.root) : Agree x store (store.retire p) := by
  rw [retire]
  split
  · exact agree_update (fun _ => rfl) hx
  · refine ⟨rfl, fun r hr => ?_, fun _ _ => rfl⟩
    have hne : r ≠ p := by
      rintro rfl
      exact hx hr.symm
    simp [hne]

theorem agree_assignHolder {store store' : Store} {kind : BorrowKind} {x y : Symbol}
    (h : store.assignHolder y kind = .ok store') (hx : x ≠ y) : Agree x store store' := by
  obtain ⟨-, rfl⟩ := assignHolder_eq_ok_iff.mp h
  exact agree_update (fun _ => rfl) hx

/-- A declaration changes nothing about other variables. -/
theorem agree_of_declare {store store' : Store} {p : Place} {request : DeclareRequest} {x : Symbol}
    (h : store.declare p request = .ok store') (hx : x ≠ p.root) : Agree x store store' := by
  rcases declare_eq_ok_iff.mp h with ⟨-, hvar⟩ | ⟨-, hpart⟩
  · refine ⟨find?_declareVar_of_ne hvar hx, fun r hr => ?_, fun q hq => ?_⟩
    all_goals obtain ⟨-, rfl⟩ := declareVar_eq_ok_iff.mp hvar
    · simp [hr, hx]
    · exact lookup_filter_of_key (f := (·.root != p.root)) (by simp [hq, hx]) _
  · obtain ⟨-, -, -, rfl⟩ := reinitialise_eq_ok_iff.mp hpart
    have hretired : Agree x store { store with retired := store.retired.filter (!p.isPrefixOf ·) } := by
      refine ⟨rfl, fun r hr => ?_, fun _ _ => rfl⟩
      have hother : p.isPrefixOf r = false := by
        rw [Bool.eq_false_iff]
        exact fun hp => hx (hr.symm.trans (Place.root_eq_of_isPrefixOf hp).symm)
      simp [hother]
    exact hretired.trans (agree_setFacts request.facts hx)

namespace Agree

variable {a b : Store} {q : Place}

theorem isRetired (h : Agree q.root a b) : b.isRetired q = a.isRetired q := by
  rw [Bool.eq_iff_iff, Store.isRetired, Store.isRetired, List.any_eq_true, List.any_eq_true]
  refine exists_congr fun r => and_congr_left fun hoverlap => ?_
  exact h.retired r (Place.root_of_overlaps hoverlap)

theorem checkLive (h : Agree q.root a b) : b.checkLive q = a.checkLive q := by
  rw [Store.checkLive, Store.checkLive, rootOf, rootOf, h.find, h.isRetired]

theorem factsUnder (h : Agree q.root a b) (decl : Declaration) : b.factsUnder decl q = a.factsUnder decl q := by
  have hat : ∀ p ∈ q :: q.ancestors, b.factsAt? p = a.factsAt? p := by
    intro p hp
    have hroot : p.root = q.root := by
      rcases List.mem_cons.mp hp with rfl | hp
      · rfl
      · obtain ⟨n, -, rfl⟩ := List.mem_map.mp hp
        rfl
    rw [factsAt?, factsAt?, h.facts p hroot]
  rw [Store.factsUnder, Store.factsUnder]
  generalize q :: q.ancestors = places at hat
  congr 1
  induction places with
  | nil => rfl
  | cons p places ih =>
    rw [List.findSome?_cons, List.findSome?_cons, hat p List.mem_cons_self,
      ih fun r hr => hat r (List.mem_cons_of_mem _ hr)]

theorem factsOf? (h : Agree q.root a b) : b.factsOf? q = a.factsOf? q := by
  rw [Store.factsOf?, Store.factsOf?, h.find]
  exact congrArg (Option.map · _) (funext fun decl => h.factsUnder decl)

theorem declared (h : Agree q.root a b) : b.declared q = a.declared q := by
  rw [Store.declared, Store.declared, rootOf, rootOf, h.find]
  cases a.find? q.root with
  | none => rfl
  | some decl => simp only [h.factsUnder decl]

theorem permissions (h : Agree q.root a b) (ledger : Ledger) : b.permissions ledger q = a.permissions ledger q := by
  rw [Store.permissions, Store.permissions, h.checkLive, h.declared]

end Agree

end Store

end BorrowChecker
