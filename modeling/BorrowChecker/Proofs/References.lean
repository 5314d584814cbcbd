import BorrowChecker.Proofs.Scoping
import Mathlib.Data.List.Nodup

/-!
# References of the registry

Everything the registry keeps refers to places. A registry is numbered if every place that it refers to has a number in
its table (`Registry.Numbered`). The registry is changed by calls alone (`Registry.Call`), and each call numbers the places
that it is about to keep, so calls lead from numbered registries to numbered ones (`Numbered.calls`), and no call takes a
place out of the table or moves it (`Call.places_grow`).
-/

namespace BorrowChecker

open Relation (ReflTransGen)

/-! ## Tables -/

namespace PlaceTable

variable {table : PlaceTable} {p q : Place} {n : Nat}

theorem nodup_insert (h : table.places.Nodup) (p : Place) : (table.insert p).places.Nodup := by
  rw [insert, intern]
  split
  next => exact h
  next hnone =>
    rw [← List.concat_eq_append]
    exact List.Nodup.concat (id?_eq_none_iff.mp hnone) h

/-- Numbers and places determine each other. -/
theorem get?_eq_some_iff (h : table.places.Nodup) : table.get? n = some p ↔ table.id? p = some n := by
  refine ⟨fun hget => ?_, get?_of_id?⟩
  cases hid : table.id? p with
  | none => exact absurd (List.mem_of_getElem? hget) (id?_eq_none_iff.mp hid)
  | some m =>
    have hlt : n < table.places.length := (List.getElem?_eq_some_iff.mp hget).1
    have hsame : table.places[n]? = table.places[m]? := hget.trans (get?_of_id? hid).symm
    rw [(List.getElem?_inj hlt h).mp hsame]

theorem exists_number (h : p ∈ table.places) : ∃ n, table.id? p = some n ∧ table.get? n = some p := by
  cases hid : table.id? p with
  | none => exact absurd h (id?_eq_none_iff.mp hid)
  | some n => exact ⟨n, rfl, get?_of_id? hid⟩

/-- Two places are given the same number only if they are the same. -/
theorem intern_eq_intern_iff (h : table.places.Nodup) :
    (table.intern p).1 = ((table.intern p).2.intern q).1 ↔ p = q := by
  constructor
  · intro hsame
    -- the first place keeps its number while the second is entered
    have hfirst : ((table.insert p).insert q).get? (table.intern p).1 = some p :=
      get?_insert_of_some (get?_intern table p)
    have hsecond : ((table.insert p).insert q).get? (table.intern p).1 = some q := by
      rw [hsame]
      exact get?_intern (table.intern p).2 q
    exact Option.some.inj (hfirst.symm.trans hsecond)
  · rintro rfl
    have hid : (table.intern p).2.id? p = some (table.intern p).1 :=
      (get?_eq_some_iff (nodup_insert h p)).mp (get?_intern table p)
    rw [intern.eq_def (table.intern p).2, hid]

end PlaceTable

/-! ## References -/

namespace Store

variable {store store' : Store} {p q : Place}

/-- The parts that the store keeps something about: those that were moved out, and those with facts of their own. -/
def parts (store : Store) : List Place := store.retired ++ store.facts.map (·.1)

def references (store : Store) : List Place := store.decls.map (·.place) ++ store.parts

/-- What the store keeps about a part belongs to a variable that is declared. -/
def Rooted (store : Store) : Prop := ∀ p ∈ store.parts, p.isVar = false ∧ store.IsDeclared p.root

theorem mem_parts_iff : p ∈ store.parts ↔ p ∈ store.retired ∨ ∃ facts, (p, facts) ∈ store.facts := by
  simp [parts]

theorem mem_references_iff : p ∈ store.references ↔ (∃ decl ∈ store.decls, decl.place = p) ∨ p ∈ store.parts := by
  simp [references]

theorem mem_parts_setFacts {facts : TypeFacts} (h : q ∈ (store.setFacts p facts).parts) : q = p ∨ q ∈ store.parts := by
  rcases mem_parts_iff.mp h with hretired | ⟨other, hfacts⟩
  · exact Or.inr (mem_parts_iff.mpr (Or.inl hretired))
  · rcases List.mem_cons.mp hfacts with hnew | hold
    · exact Or.inl (congrArg Prod.fst hnew)
    · exact Or.inr (mem_parts_iff.mpr (Or.inr ⟨other, List.mem_of_mem_filter hold⟩))

theorem parts_subset_of_declareVar {request : DeclareRequest} (h : store.declareVar p request = .ok store')
    (hq : q ∈ store'.parts) : q ∈ store.parts := by
  obtain ⟨-, rfl⟩ := declareVar_eq_ok_iff.mp h
  rcases mem_parts_iff.mp hq with hretired | ⟨facts, hfacts⟩
  · exact mem_parts_iff.mpr (Or.inl (List.mem_of_mem_filter hretired))
  · exact mem_parts_iff.mpr (Or.inr ⟨facts, List.mem_of_mem_filter hfacts⟩)

theorem mem_parts_of_reinitialise {request : DeclareRequest} (h : store.reinitialise p request = .ok store')
    (hq : q ∈ store'.parts) : q = p ∨ q ∈ store.parts := by
  obtain ⟨-, -, -, rfl⟩ := reinitialise_eq_ok_iff.mp h
  rcases mem_parts_setFacts hq with hnew | hleft
  · exact Or.inl hnew
  · rcases mem_parts_iff.mp hleft with hretired | hfacts
    · exact Or.inr (mem_parts_iff.mpr (Or.inl (List.mem_of_mem_filter hretired)))
    · exact Or.inr (mem_parts_iff.mpr (Or.inr hfacts))

/-- A declaration adds no reference but the one to what is declared. -/
theorem mem_references_of_declare {request : DeclareRequest} (h : store.declare p request = .ok store')
    (hq : q ∈ store'.references) : q = p ∨ q ∈ store.references := by
  rw [mem_references_iff] at hq ⊢
  rcases declare_eq_ok_iff.mp h with ⟨-, hvar⟩ | ⟨-, hpart⟩
  · rcases hq with ⟨decl, hdecl, rfl⟩ | hparts
    · obtain ⟨-, rfl⟩ := declareVar_eq_ok_iff.mp hvar
      rcases List.mem_append.mp hdecl with hold | hnew
      · exact Or.inr (Or.inl ⟨decl, List.mem_of_mem_filter hold, rfl⟩)
      · rw [List.mem_singleton.mp hnew]
        exact Or.inl rfl
    · exact Or.inr (Or.inr (parts_subset_of_declareVar hvar hparts))
  · rcases hq with ⟨decl, hdecl, rfl⟩ | hparts
    · obtain ⟨-, -, -, rfl⟩ := reinitialise_eq_ok_iff.mp hpart
      exact Or.inr (Or.inl ⟨decl, hdecl, rfl⟩)
    · exact (mem_parts_of_reinitialise hpart hparts).imp_right Or.inr

theorem Rooted.declare (h : store.Rooted) {request : DeclareRequest} (hstore : store.declare p request = .ok store') :
    store'.Rooted := by
  intro q hq
  have hkept : q ∈ store.parts → q.isVar = false ∧ store'.IsDeclared q.root :=
    fun hold => ⟨(h q hold).1, isDeclared_of_declare hstore (h q hold).2⟩
  rcases declare_eq_ok_iff.mp hstore with ⟨-, hvar⟩ | ⟨hisVar, hpart⟩
  · exact hkept (parts_subset_of_declareVar hvar hq)
  · rcases mem_parts_of_reinitialise hpart hq with rfl | hold
    · obtain ⟨⟨decl, hfind, -⟩, -⟩ := reinitialise_eq_ok_iff.mp hpart
      exact ⟨hisVar, isDeclared_of_declare hstore (by rw [IsDeclared, hfind]; rfl)⟩
    · exact hkept hold

/-- A change to a declaration that keeps its place changes nothing about what is referred to. -/
theorem mem_references_update {x : Symbol} {f : Declaration → Declaration} (hf : ∀ decl, (f decl).place = decl.place) :
    q ∈ (store.update x f).references ↔ q ∈ store.references := by
  have hplaces : (store.update x f).decls.map (·.place) = store.decls.map (·.place) := map_decls_update hf
  rw [references, references, hplaces]
  rfl

theorem mem_references_retire (hq : q ∈ (store.retire p).references) :
    (p.isVar = false ∧ q = p) ∨ q ∈ store.references := by
  rw [retire] at hq
  split at hq
  next =>
    refine Or.inr ((mem_references_update ?_).mp hq)
    exact fun _ => rfl
  next hpart =>
    rw [mem_references_iff, mem_parts_iff] at hq
    rw [mem_references_iff, mem_parts_iff]
    rcases hq with hdecl | hretired | hfacts
    · exact Or.inr (Or.inl hdecl)
    · rcases List.mem_insert_iff.mp hretired with hnew | hold
      · exact Or.inl ⟨Bool.eq_false_iff.mpr hpart, hnew⟩
      · exact Or.inr (Or.inr (Or.inl hold))
    · exact Or.inr (Or.inr (Or.inr hfacts))

theorem Rooted.retire (h : store.Rooted) (hp : p.isVar = true ∨ store.IsDeclared p.root) : (store.retire p).Rooted := by
  intro q hq
  rw [Store.retire] at hq ⊢
  split at hq
  next hvar =>
    rw [if_pos hvar, isDeclared_update]
    · exact h q hq
    · exact fun _ => rfl
  next hpart =>
    rw [if_neg hpart]
    rcases mem_parts_iff.mp hq with hretired | hfacts
    · rcases List.mem_insert_iff.mp hretired with rfl | hold
      · exact ⟨Bool.eq_false_iff.mpr hpart, hp.resolve_left hpart⟩
      · exact h q (mem_parts_iff.mpr (Or.inl hold))
    · exact h q (mem_parts_iff.mpr (Or.inr hfacts))

end Store

def Ledger.references (ledger : Ledger) : List Place := ledger.loans.flatMap fun loan => [loan.source, loan.holder]

theorem Ledger.mem_references_iff {ledger : Ledger} {p : Place} :
    p ∈ ledger.references ↔ ∃ loan ∈ ledger.loans, p = loan.source ∨ p = loan.holder := by
  simp [references]

def Splits.references (splits : Splits) : List Place := splits.records.map (·.array)

namespace Registry

/-- All places that the registry refers to: those of the declarations, of what is known about parts, of the loans and of
the splits. -/
def references (r : Registry) : List Place := r.store.references ++ r.ledger.references ++ r.splits.references

variable {r r' : Registry} {p : Place}

theorem mem_references_iff :
    p ∈ r.references ↔ p ∈ r.store.references ∨ p ∈ r.ledger.references ∨ p ∈ r.splits.references := by
  rw [references, List.mem_append, List.mem_append, or_assoc]

/-! ## Numbered registries -/

/-- Different places have different numbers, every place that is referred to has one, and what is known about parts
belongs to declared variables. -/
structure Numbered (r : Registry) : Prop where
  distinct : r.places.places.Nodup
  known : ∀ p ∈ r.references, p ∈ r.places.places
  rooted : r.store.Rooted

theorem numbered_empty : ({} : Registry).Numbered :=
  ⟨List.nodup_nil, fun _ h => absurd h List.not_mem_nil, fun _ h => absurd h List.not_mem_nil⟩

namespace Numbered

theorem enter (h : r.Numbered) (p : Place) : (r.enter p).Numbered where
  distinct := PlaceTable.nodup_insert h.distinct p
  known q hq := PlaceTable.mem_places_insert.mpr (Or.inr (h.known q hq))
  rooted := h.rooted

theorem setStore (h : r.Numbered) {store : Store} (hrooted : store.Rooted)
    (hknown : ∀ p ∈ store.references, p ∈ r.places.places ∨ p ∈ r.store.references) : { r with store }.Numbered where
  distinct := h.distinct
  known p hp := by
    rcases mem_references_iff.mp hp with hstore | hrest
    · exact (hknown p hstore).elim id fun hold => h.known p (mem_references_iff.mpr (Or.inl hold))
    · exact h.known p (mem_references_iff.mpr (Or.inr hrest))
  rooted := hrooted

theorem setLedger (h : r.Numbered) {ledger : Ledger}
    (hknown : ∀ p ∈ ledger.references, p ∈ r.places.places ∨ p ∈ r.ledger.references) : { r with ledger }.Numbered where
  distinct := h.distinct
  known p hp := by
    rcases mem_references_iff.mp hp with hstore | hledger | hsplits
    · exact h.known p (mem_references_iff.mpr (Or.inl hstore))
    · exact (hknown p hledger).elim id fun hold => h.known p (mem_references_iff.mpr (Or.inr (Or.inl hold)))
    · exact h.known p (mem_references_iff.mpr (Or.inr (Or.inr hsplits)))
  rooted := h.rooted

theorem setSplits (h : r.Numbered) {splits : Splits}
    (hknown : ∀ p ∈ splits.references, p ∈ r.places.places ∨ p ∈ r.splits.references) : { r with splits }.Numbered where
  distinct := h.distinct
  known p hp := by
    rcases mem_references_iff.mp hp with hstore | hledger | hsplits
    · exact h.known p (mem_references_iff.mpr (Or.inl hstore))
    · exact h.known p (mem_references_iff.mpr (Or.inr (Or.inl hledger)))
    · exact (hknown p hsplits).elim id fun hold => h.known p (mem_references_iff.mpr (Or.inr (Or.inr hold)))
  rooted := h.rooted

theorem depart (h : r.Numbered) {loans : List Loan} (hsub : loans.Sublist r.ledger.loans) :
    { r with ledger := { r.ledger with loans } }.Numbered := by
  refine h.setLedger fun p hp => Or.inr ?_
  obtain ⟨loan, hloan, hplace⟩ := Ledger.mem_references_iff.mp hp
  exact Ledger.mem_references_iff.mpr ⟨loan, hsub.subset hloan, hplace⟩

end Numbered

/-! ## Calls -/

/-- One call on the registry, under what its callers see to: facts are entered for parts only, and what is moved out is
a variable or part of one that is declared. -/
inductive Call : Registry → Registry → Prop where
  | declare (r : Registry) (p : Place) (request : DeclareRequest) : Call r (r.declare p request).2
  | registerFacts {r : Registry} {p : Place} (facts : TypeFacts) :
      p.isVar = false → Call r (r.registerFacts p facts).2
  | retire {r : Registry} {p : Place} : p.isVar = true ∨ r.store.IsDeclared p.root → Call r (r.retire p)
  | assignHolder (r : Registry) (x : Symbol) (kind : BorrowKind) : Call r (r.assignHolder x kind).2
  | borrow (r : Registry) (request : LoanRequest) (nesting : Nesting) : Call r (r.borrow request nesting).2
  | release (r : Registry) (id : LoanId) : Call r (r.release id)
  | releaseWhere (r : Registry) (gone : Loan → Bool) : Call r { r with ledger := (r.ledger.releaseWhere gone).2 }
  | transfer (r : Registry) (source target : Place) : Call r (r.transfer source target).2
  | split (r : Registry) (array : Place) (boundary : Nat) (scope : ScopeId) : Call r (r.split array boundary scope).2
  | discardSplits (r : Registry) (scope : ScopeId) : Call r (r.discardSplits scope)

namespace Numbered

theorem declare (h : r.Numbered) (p : Place) (request : DeclareRequest) : (r.declare p request).2.Numbered := by
  rcases r.declare_cases p request with ⟨e, -, hregistry⟩ | ⟨store, hstore, hregistry⟩
  · rw [hregistry]
    exact h.enter p
  · rw [hregistry]
    refine (h.enter p).setStore (h.rooted.declare hstore) fun q hq => ?_
    exact (Store.mem_references_of_declare hstore hq).imp_left fun hq => PlaceTable.mem_places_insert.mpr (Or.inl hq)

theorem registerFacts (h : r.Numbered) (hpart : p.isVar = false) (facts : TypeFacts) :
    (r.registerFacts p facts).2.Numbered := by
  rw [Registry.registerFacts]
  split
  next e _ => exact h
  next store hstore =>
    obtain ⟨hdeclared, rfl⟩ := Store.registerFacts_eq_ok_iff.mp hstore
    refine (h.enter p).setStore ?_ fun q hq => ?_
    · intro q hq
      rcases Store.mem_parts_setFacts hq with rfl | hold
      · exact ⟨hpart, hdeclared⟩
      · exact h.rooted q hold
    · rw [Store.mem_references_iff] at hq
      rcases hq with hdecl | hparts
      · exact Or.inr (Store.mem_references_iff.mpr (Or.inl hdecl))
      · rcases Store.mem_parts_setFacts hparts with hnew | hold
        · exact Or.inl (PlaceTable.mem_places_insert.mpr (Or.inl hnew))
        · exact Or.inr (Store.mem_references_iff.mpr (Or.inr hold))

theorem retire (h : r.Numbered) (hp : p.isVar = true ∨ r.store.IsDeclared p.root) : (r.retire p).Numbered := by
  rw [Registry.retire]
  split
  next hvar =>
    refine h.setStore (h.rooted.retire hp) fun q hq => ?_
    rcases Store.mem_references_retire hq with ⟨hpart, -⟩ | hold
    · exact Bool.noConfusion (hpart.symm.trans hvar)
    · exact Or.inr hold
  next =>
    refine (h.enter p).setStore (h.rooted.retire hp) fun q hq => ?_
    rcases Store.mem_references_retire hq with ⟨-, hnew⟩ | hold
    · exact Or.inl (PlaceTable.mem_places_insert.mpr (Or.inl hnew))
    · exact Or.inr hold

theorem assignHolder (h : r.Numbered) (x : Symbol) (kind : BorrowKind) : (r.assignHolder x kind).2.Numbered := by
  rcases r.assignHolder_cases x kind with ⟨e, -, hregistry⟩ | ⟨store, hstore, hregistry⟩
  · rw [hregistry]
    exact h
  · rw [hregistry]
    obtain ⟨-, rfl⟩ := Store.assignHolder_eq_ok_iff.mp hstore
    refine h.setStore (fun q hq => ?_) fun q hq => Or.inr ((Store.mem_references_update ?_).mp hq)
    · rw [Store.isDeclared_update]
      · exact h.rooted q hq
      · exact fun _ => rfl
    · exact fun _ => rfl

theorem borrow (h : r.Numbered) (request : LoanRequest) (nesting : Nesting) :
    (r.borrow request nesting).2.Numbered := by
  have hentered : ((r.enter request.source).enter request.holder).Numbered := (h.enter _).enter _
  rcases r.borrow_cases request nesting with ⟨e, -, hregistry⟩ | ⟨id, ledger, hledger, hregistry⟩
  · rw [hregistry]
    exact hentered
  · rw [hregistry]
    obtain ⟨-, -, rfl, rfl⟩ := Ledger.borrow_eq_ok_iff.mp hledger
    refine hentered.setLedger fun q hq => ?_
    obtain ⟨loan, hloan, hplace⟩ := Ledger.mem_references_iff.mp hq
    rcases List.mem_append.mp hloan with hold | hnew
    · exact Or.inr (Ledger.mem_references_iff.mpr ⟨loan, hold, hplace⟩)
    · rw [List.mem_singleton.mp hnew] at hplace
      refine Or.inl (PlaceTable.mem_places_insert.mpr ?_)
      rcases hplace with hsource | hholder
      · exact Or.inr (PlaceTable.mem_places_insert.mpr (Or.inl hsource))
      · exact Or.inl hholder

theorem transfer (h : r.Numbered) (source target : Place) : (r.transfer source target).2.Numbered := by
  refine ((h.enter source).enter target).setLedger fun q hq => ?_
  obtain ⟨loan, hloan, hplace⟩ := Ledger.mem_references_iff.mp hq
  obtain ⟨old, hold, rfl⟩ := List.mem_map.mp hloan
  split at hplace
  · rcases hplace with hsource | htarget
    · exact Or.inr (Ledger.mem_references_iff.mpr ⟨old, hold, Or.inl hsource⟩)
    · exact Or.inl (PlaceTable.mem_places_insert.mpr (Or.inl htarget))
  · exact Or.inr (Ledger.mem_references_iff.mpr ⟨old, hold, hplace⟩)

theorem split (h : r.Numbered) (array : Place) (boundary : Nat) (scope : ScopeId) :
    (r.split array boundary scope).2.Numbered := by
  refine (((h.enter array).enter _).enter _).setSplits fun q hq => ?_
  obtain ⟨record, hrecord, rfl⟩ := List.mem_map.mp hq
  simp only [Splits.insert] at hrecord
  split at hrecord
  · exact Or.inr (List.mem_map_of_mem hrecord)
  · rcases List.mem_append.mp hrecord with hold | hnew
    · exact Or.inr (List.mem_map_of_mem hold)
    · rw [List.mem_singleton.mp hnew]
      -- the array was entered before its halves
      refine Or.inl (PlaceTable.mem_places_insert.mpr (Or.inr (PlaceTable.mem_places_insert.mpr (Or.inr ?_))))
      exact PlaceTable.mem_places_insert.mpr (Or.inl rfl)

/-- Every call numbers what it keeps. -/
theorem call (h : r.Numbered) (hcall : Call r r') : r'.Numbered := by
  cases hcall with
  | declare p request => exact h.declare p request
  | registerFacts facts hpart => exact h.registerFacts hpart facts
  | retire hp => exact h.retire hp
  | assignHolder x kind => exact h.assignHolder x kind
  | borrow request nesting => exact h.borrow request nesting
  | release id => exact h.depart List.eraseP_sublist
  | releaseWhere gone =>
    rw [Ledger.snd_releaseWhere]
    exact h.depart List.filter_sublist
  | transfer source target => exact h.transfer source target
  | split array boundary scope => exact h.split array boundary scope
  | discardSplits scope =>
    refine h.setSplits fun q hq => Or.inr ?_
    obtain ⟨record, hrecord, rfl⟩ := List.mem_map.mp hq
    exact List.mem_map_of_mem (List.mem_of_mem_filter hrecord)

theorem calls (h : r.Numbered) (hcalls : ReflTransGen Call r r') : r'.Numbered := by
  induction hcalls with
  | refl => exact h
  | tail _ hlast ih => exact ih.call hlast

end Numbered

/-- No call takes a place out of the table or moves it. -/
theorem Call.places_grow (hcall : Call r r') : r.places.places <+: r'.places.places := by
  cases hcall with
  | declare p request =>
    rcases r.declare_cases p request with ⟨e, -, hregistry⟩ | ⟨store, -, hregistry⟩
    · rw [hregistry]
      exact PlaceTable.prefix_insert _ p
    · rw [hregistry]
      exact PlaceTable.prefix_insert _ p
  | @registerFacts p facts _ =>
    rw [Registry.registerFacts]
    split
    · exact List.prefix_refl _
    · exact PlaceTable.prefix_insert _ p
  | @retire p _ =>
    rw [Registry.retire]
    split
    · exact List.prefix_refl _
    · exact PlaceTable.prefix_insert _ p
  | assignHolder x kind =>
    rw [Registry.assignHolder]
    split
    · exact List.prefix_refl _
    · exact List.prefix_refl _
  | borrow request nesting =>
    have hentered := (PlaceTable.prefix_insert r.places request.source).trans (PlaceTable.prefix_insert _ request.holder)
    rcases r.borrow_cases request nesting with ⟨e, -, hregistry⟩ | ⟨id, ledger, -, hregistry⟩
    · rw [hregistry]
      exact hentered
    · rw [hregistry]
      exact hentered
  | transfer source target => exact (PlaceTable.prefix_insert _ source).trans (PlaceTable.prefix_insert _ target)
  | split array boundary scope =>
    exact ((PlaceTable.prefix_insert _ array).trans (PlaceTable.prefix_insert _ _)).trans (PlaceTable.prefix_insert _ _)
  | _ => exact List.prefix_refl _

theorem places_grow_of_calls (hcalls : ReflTransGen Call r r') : r.places.places <+: r'.places.places := by
  induction hcalls with
  | refl => exact List.prefix_refl _
  | tail _ hlast ih => exact ih.trans hlast.places_grow

/-! ## Sequences of calls -/

theorem Call.declareRefused {request : DeclareRequest} {e : StoreError} (h : r.store.declare p request = .error e) :
    Call r (r.enter p) := by
  have hcall := Call.declare r p request
  rcases r.declare_cases p request with ⟨_, -, hregistry⟩ | ⟨store, hstore, -⟩
  · rwa [hregistry] at hcall
  · rw [h] at hstore
    exact absurd hstore (by simp)

theorem Call.declared {request : DeclareRequest} {store : Store} (h : r.store.declare p request = .ok store) :
    Call r { r.enter p with store } := by
  have hcall := Call.declare r p request
  rcases r.declare_cases p request with ⟨e, hstore, -⟩ | ⟨store', hstore, hregistry⟩
  · rw [h] at hstore
    exact absurd hstore (by simp)
  · cases h.symm.trans hstore
    rwa [hregistry] at hcall

theorem Call.assigned {x : Symbol} {kind : BorrowKind} {store : Store} (h : r.store.assignHolder x kind = .ok store) :
    Call r { r with store } := by
  have hcall := Call.assignHolder r x kind
  rcases r.assignHolder_cases x kind with ⟨e, hstore, -⟩ | ⟨store', hstore, hregistry⟩
  · rw [h] at hstore
    exact absurd hstore (by simp)
  · cases h.symm.trans hstore
    rwa [hregistry] at hcall

theorem Call.lendRefused {request : LoanRequest} {nesting : Nesting} {e : LoanError}
    (h : r.ledger.borrow request nesting = .error e) : Call r ((r.enter request.source).enter request.holder) := by
  have hcall := Call.borrow r request nesting
  rcases r.borrow_cases request nesting with ⟨_, -, hregistry⟩ | ⟨id, ledger, hledger, -⟩
  · rwa [hregistry] at hcall
  · rw [h] at hledger
    exact absurd hledger (by simp)

theorem Call.lent {request : LoanRequest} {nesting : Nesting} {id : LoanId} {ledger : Ledger}
    (h : r.ledger.borrow request nesting = .ok (id, ledger)) :
    Call r { (r.enter request.source).enter request.holder with ledger } := by
  have hcall := Call.borrow r request nesting
  rcases r.borrow_cases request nesting with ⟨e, hledger, -⟩ | ⟨id', ledger', hledger, hregistry⟩
  · rw [h] at hledger
    exact absurd hledger (by simp)
  · cases h.symm.trans hledger
    rwa [hregistry] at hcall

theorem Call.described {facts : TypeFacts} {store : Store} (hpart : p.isVar = false)
    (h : r.store.registerFacts p facts = .ok store) : Call r { r.enter p with store } := by
  have hcall := Call.registerFacts (r := r) facts hpart
  rwa [Registry.registerFacts, h] at hcall

theorem releaseEach_calls (ids : List LoanId) : ReflTransGen Call r (r.releaseEach ids) := by
  induction ids generalizing r with
  | nil => exact .refl
  | cons id ids ih => exact .head (.release r id) ih

theorem withdraw_calls (hp : p.isVar = true ∨ r.store.IsDeclared p.root) : ReflTransGen Call r (r.withdraw p) :=
  .head (.releaseWhere _ _) (.single (.retire hp))

/-- The reference of a loan is stored by one call at most, once its holder is numbered. -/
theorem stores_calls {scope : ScopeId} {request : LoanRequest} {store : Store} {ledger : Ledger}
    (h : r.store.Stores scope request store) :
    ReflTransGen Call { r.enter request.holder with ledger } { r.enter request.holder with ledger, store } := by
  cases h with
  | part _ _ => exact .refl
  | assign _ hassign => exact .single (.assigned hassign)
  | declare _ _ _ hstore =>
    have hcall := Call.declared (r := { r.enter request.holder with ledger }) hstore
    simp only [enter, PlaceTable.insert_insert] at hcall
    exact .single hcall

/-! ## Revisions as calls -/

/-- What dies with its scope is a variable, which is moved out by its own call. -/
theorem Revision.calls {declared : Place → Prop} {scope : ScopeId} {takes : Bool} (hplaced : r.store.Placed)
    (h : Revision declared scope r takes r') : ReflTransGen Call r r' := by
  cases h with
  | declare _ _ hstore => exact .single (.declared hstore)
  | refuse hrefused => exact .single (.declareRefused hrefused)
  | rebind _ _ _ hstore => exact .head (.declared hstore) (.single (.transfer _ _ _))
  | describe hpart hstore => exact .single (.described hpart hstore)
  | withdraw hdeclared _ => exact withdraw_calls (Or.inr hdeclared)
  | bury hp => exact (releaseEach_calls _).trans (withdraw_calls (Or.inl (hplaced.isVar hp)))
  | @lend request nesting id ledger store _ hledger hstores _ =>
    exact .head (.lent hledger) (stores_calls (r := r.enter request.source) hstores)
  | revoke _ hledger => exact .head (.lent hledger) (.single (.release _ _))
  | decline hdeclined => exact .single (.lendRefused hdeclined)
  | release gone => exact .single (.releaseWhere _ gone)
  | cut array boundary => exact .single (.split _ array boundary scope)
  | discard id => exact .single (.discardSplits _ id)

theorem Revisions.calls {declared : Place → Prop} {scope : ScopeId} {n : Nat} (hplaced : r.store.Placed)
    (h : Revisions declared scope n r r') : ReflTransGen Call r r' := by
  induction h with
  | none => exact .refl
  | quiet hfirst _ ih => exact (hfirst.calls hplaced).trans (ih (hfirst.placed hplaced))
  | taking hfirst _ ih => exact (hfirst.calls hplaced).trans (ih (hfirst.placed hplaced))

end Registry

end BorrowChecker
