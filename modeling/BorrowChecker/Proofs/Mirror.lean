import BorrowChecker.Proofs.Renaming
import BorrowChecker.Proofs.Store

/-!
# Mirrored stores and registries

A registry mirrors another if it is the other renamed. The tables that are only ever searched, that is the parts that were
moved out, the facts of parts and the numbers of places, may be in any order; what is listed in the order in which it was
made keeps that order. The same questions then have corresponding answers, and the same changes leave the registries
mirrored.
-/

namespace BorrowChecker

variable {ν : Renaming}

/-! ## Stores -/

namespace Store

theorem lookup_filter (f : Place → Bool) (p : Place) (entries : List (Place × TypeFacts)) :
    (entries.filter (f ·.1)).lookup p = if f p then entries.lookup p else none := by
  split
  next hkept => exact lookup_filter_of_key hkept entries
  next hgone =>
    refine List.lookup_eq_none_iff.mpr fun entry hentry => bne_iff_ne.mpr ?_
    rintro rfl
    exact hgone (List.mem_filter.mp hentry).2

/-- The second store is the first one renamed. Which parts were moved out and what is known of parts are a set and a
table, so it does not matter in which order they are listed. -/
structure Mirrors (ν : Renaming) (store store' : Store) : Prop where
  decls : store'.decls = store.decls.map (·.rename ν)
  retired : ∀ q, q ∈ store'.retired ↔ ∃ p ∈ store.retired, p.rename ν = q
  facts : ∀ p, store'.facts.lookup (p.rename ν) = store.facts.lookup p
  nextOrder : store'.nextOrder = store.nextOrder

/-- Both stores refuse for the same reason, or both have changed alike. -/
def Alike (ν : Renaming) (result result' : Except StoreError Store) : Prop :=
  (∃ e, result = .error e ∧ result' = .error e) ∨
    ∃ store store', result = .ok store ∧ result' = .ok store' ∧ store.Mirrors ν store'

namespace Mirrors

variable {store store' : Store}

theorem find? (h : store.Mirrors ν store') (x : Symbol) :
    store'.find? (ν.symbol x) = (store.find? x).map (·.rename ν) := by
  rw [Store.find?, Store.find?, h.decls, List.find?_map]
  simp only [Function.comp_def, Declaration.rename_name, ν.symbol_beq]

theorem rootOf (h : store.Mirrors ν store') (p : Place) :
    store'.rootOf (p.rename ν) = (store.rootOf p).map (·.rename ν) := by
  rw [Store.rootOf, Store.rootOf, Place.rename_root, h.find?]
  cases store.find? p.root <;> rfl

theorem any_retired (h : store.Mirrors ν store') {P P' : Place → Bool} (hP : ∀ p, P' (p.rename ν) = P p) :
    store'.retired.any P' = store.retired.any P := by
  rw [Bool.eq_iff_iff, List.any_eq_true, List.any_eq_true]
  constructor
  · rintro ⟨q, hq, hyes⟩
    obtain ⟨p, hp, rfl⟩ := (h.retired q).mp hq
    exact ⟨p, hp, hP p ▸ hyes⟩
  · rintro ⟨p, hp, hyes⟩
    exact ⟨p.rename ν, (h.retired _).mpr ⟨p, hp, rfl⟩, (hP p).trans hyes⟩

theorem isRetired (h : store.Mirrors ν store') (p : Place) : store'.isRetired (p.rename ν) = store.isRetired p :=
  h.any_retired fun q => Place.overlaps_rename ν q p

theorem checkLive (h : store.Mirrors ν store') (p : Place) :
    store'.checkLive (p.rename ν) = (store.checkLive p).map (·.rename ν) := by
  rw [Store.checkLive, Store.checkLive, h.rootOf, h.isRetired]
  cases store.rootOf p with
  | error e => rfl
  | ok decl =>
    simp only [Except.map, Declaration.rename_live]
    split <;> rfl

theorem factsAt? (h : store.Mirrors ν store') (p : Place) : store'.factsAt? (p.rename ν) = store.factsAt? p := by
  rw [Store.factsAt?, Store.factsAt?, Place.isVar_rename, h.facts]

theorem factsUnder (h : store.Mirrors ν store') (decl : Declaration) (p : Place) :
    store'.factsUnder (decl.rename ν) (p.rename ν) = store.factsUnder decl p := by
  have hsame : store'.factsAt? ∘ (·.rename ν) = store.factsAt? := funext h.factsAt?
  rw [Store.factsUnder, Store.factsUnder, Place.ancestors_rename, ← List.map_cons, List.findSome?_map, hsame]
  rfl

theorem factsOf? (h : store.Mirrors ν store') (p : Place) : store'.factsOf? (p.rename ν) = store.factsOf? p := by
  rw [Store.factsOf?, Store.factsOf?, Place.rename_root, h.find?]
  cases store.find? p.root with
  | none => rfl
  | some decl => exact congrArg some (h.factsUnder decl p)

theorem declared (h : store.Mirrors ν store') (p : Place) : store'.declared (p.rename ν) = store.declared p := by
  rw [Store.declared, Store.declared, h.rootOf]
  cases store.rootOf p with
  | error e => rfl
  | ok decl =>
    have hhead : (p.rename ν).path.head? = p.path.head?.map (·.rename ν) := List.head?_map
    simp only [Except.map, h.factsUnder, hhead, Declaration.rename_holder, Declaration.rename_perms]
    cases decl.holder with
    | none => rfl
    | some kind =>
      rcases p.path.head? with _ | e
      · rfl
      · cases e <;> rfl

theorem permissions (h : store.Mirrors ν store') (ledger : Ledger) (p : Place) :
    store'.permissions (ledger.rename ν) (p.rename ν) = store.permissions ledger p := by
  rw [Store.permissions, Store.permissions, h.checkLive, h.declared, Ledger.suspended_rename]
  cases store.checkLive p with
  | error e => cases e <;> rfl
  | ok decl => rfl

theorem liveIn (h : store.Mirrors ν store') (scope : ScopeId) :
    store'.liveIn (ν.scope scope) = (store.liveIn scope).map (·.rename ν) := by
  rw [Store.liveIn, Store.liveIn, h.decls, List.filter_map, List.map_reverse]
  simp only [Function.comp_def, Declaration.rename_live, Declaration.rename_scope, ν.scope_beq]

/-! ### Changes -/

theorem update (h : store.Mirrors ν store') (x : Symbol) {f f' : Declaration → Declaration}
    (hf : ∀ decl, f' (decl.rename ν) = (f decl).rename ν) :
    (store.update x f).Mirrors ν (store'.update (ν.symbol x) f') where
  decls := by
    simp only [Store.update, h.decls, List.map_map]
    congr 1
    funext decl
    by_cases hname : decl.name = x <;> simp [hname, hf]
  retired := h.retired
  facts := h.facts
  nextOrder := h.nextOrder

theorem filter_retired (h : store.Mirrors ν store') {P P' : Place → Bool} (hP : ∀ p, P' (p.rename ν) = P p) (q : Place) :
    q ∈ store'.retired.filter P' ↔ ∃ p ∈ store.retired.filter P, p.rename ν = q := by
  simp only [List.mem_filter, h.retired]
  constructor
  · rintro ⟨⟨p, hp, rfl⟩, hyes⟩
    exact ⟨p, ⟨hp, hP p ▸ hyes⟩, rfl⟩
  · rintro ⟨p, ⟨hp, hyes⟩, rfl⟩
    exact ⟨⟨p, hp, rfl⟩, (hP p).trans hyes⟩

theorem setFacts (h : store.Mirrors ν store') (p : Place) (facts : TypeFacts) :
    (store.setFacts p facts).Mirrors ν (store'.setFacts (p.rename ν) facts) where
  decls := h.decls
  retired := h.retired
  facts q := by
    by_cases hq : q = p
    · simp [Store.setFacts, hq]
    · have hne : (q == p) = false := beq_eq_false_iff_ne.mpr hq
      have hne' : (q.rename ν == p.rename ν) = false := beq_eq_false_iff_ne.mpr fun he => hq (Place.rename_injective ν he)
      simp only [Store.setFacts, List.lookup_cons, hne, hne', lookup_filter (· != p), lookup_filter (· != p.rename ν), h.facts]
      simp [hq]
  nextOrder := h.nextOrder

theorem declareVar (h : store.Mirrors ν store') (p : Place) (request : DeclareRequest) :
    Alike ν (store.declareVar p request) (store'.declareVar (p.rename ν) (request.rename ν)) := by
  have halive : (store'.find? (ν.symbol p.root)).any (·.live) = (store.find? p.root).any (·.live) := by
    rw [h.find?, Option.any_map]
    rfl
  rw [Store.declareVar, Store.declareVar, Place.rename_root, halive]
  split
  next => exact Or.inl ⟨_, rfl, rfl⟩
  next =>
    refine Or.inr ⟨_, _, rfl, rfl, ?_, h.filter_retired fun q => ?_, fun q => ?_, congrArg (· + 1) h.nextOrder⟩
    · have hothers : store'.decls.filter (·.name != ν.symbol p.root) =
          (store.decls.filter (·.name != p.root)).map (·.rename ν) := by
        rw [h.decls, List.filter_map]
        simp only [Function.comp_def, Declaration.rename_name, bne, ν.symbol_beq]
      rw [hothers, h.nextOrder, List.map_append]
      rfl
    · simp only [Place.rename_root, bne, ν.symbol_beq]
    · have hother : ((q.rename ν).root != ν.symbol p.root) = (q.root != p.root) := by
        simp only [Place.rename_root, bne, ν.symbol_beq]
      rw [lookup_filter (·.root != ν.symbol p.root), lookup_filter (·.root != p.root), hother, h.facts]

theorem reinitialise (h : store.Mirrors ν store') (p : Place) (request : DeclareRequest) :
    Alike ν (store.reinitialise p request) (store'.reinitialise (p.rename ν) (request.rename ν)) := by
  have haround : (store'.retired.any fun r => !(p.rename ν).isPrefixOf r && (p.rename ν).overlaps r) =
      store.retired.any fun r => !p.isPrefixOf r && p.overlaps r := h.any_retired fun r => by simp
  have hinside : store'.retired.any ((p.rename ν).isPrefixOf ·) = store.retired.any (p.isPrefixOf ·) :=
    h.any_retired fun r => by simp
  rw [Store.reinitialise, Store.reinitialise, h.rootOf, haround, hinside]
  cases store.rootOf p with
  | error e => exact Or.inl ⟨e, rfl, rfl⟩
  | ok decl =>
    simp only [Except.map, Declaration.rename_live, Declaration.rename_perms]
    split
    next => exact Or.inl ⟨_, rfl, rfl⟩
    split
    next => exact Or.inl ⟨_, rfl, rfl⟩
    split
    next => exact Or.inl ⟨_, rfl, rfl⟩
    split
    next => exact Or.inl ⟨_, rfl, rfl⟩
    next =>
      have hfilled : { store with retired := store.retired.filter (!p.isPrefixOf ·) }.Mirrors ν
          { store' with retired := store'.retired.filter (!(p.rename ν).isPrefixOf ·) } :=
        ⟨h.decls, h.filter_retired fun r => by simp, h.facts, h.nextOrder⟩
      exact Or.inr ⟨_, _, rfl, rfl, hfilled.setFacts p request.facts⟩

theorem declare (h : store.Mirrors ν store') (p : Place) (request : DeclareRequest) :
    Alike ν (store.declare p request) (store'.declare (p.rename ν) (request.rename ν)) := by
  rw [Store.declare, Store.declare, Place.isVar_rename]
  split
  next => exact h.declareVar p request
  next => exact h.reinitialise p request

theorem registerFacts (h : store.Mirrors ν store') (p : Place) (facts : TypeFacts) :
    Alike ν (store.registerFacts p facts) (store'.registerFacts (p.rename ν) facts) := by
  rw [Store.registerFacts, Store.registerFacts, h.rootOf]
  cases store.rootOf p with
  | error e => exact Or.inl ⟨e, rfl, rfl⟩
  | ok decl => exact Or.inr ⟨_, _, rfl, rfl, h.setFacts p facts⟩

theorem retire (h : store.Mirrors ν store') (p : Place) : (store.retire p).Mirrors ν (store'.retire (p.rename ν)) := by
  rw [Store.retire, Store.retire, Place.isVar_rename]
  split
  next => exact h.update p.root fun _ => rfl
  next =>
    refine ⟨h.decls, fun q => ?_, h.facts, h.nextOrder⟩
    simp only [List.mem_insert_iff, h.retired]
    constructor
    · rintro (rfl | ⟨r, hr, rfl⟩)
      · exact ⟨p, Or.inl rfl, rfl⟩
      · exact ⟨r, Or.inr hr, rfl⟩
    · rintro ⟨r, rfl | hr, rfl⟩
      · exact Or.inl rfl
      · exact Or.inr ⟨r, hr, rfl⟩

theorem assignHolder (h : store.Mirrors ν store') (x : Symbol) (kind : BorrowKind) :
    Alike ν (store.assignHolder x kind) (store'.assignHolder (ν.symbol x) kind) := by
  rw [Store.assignHolder, Store.assignHolder, h.find?]
  cases store.find? x with
  | none => exact Or.inl ⟨_, rfl, rfl⟩
  | some decl =>
    simp only [Option.map_some, Declaration.rename_live, Declaration.rename_mutable]
    split
    next => exact Or.inl ⟨_, rfl, rfl⟩
    split
    next => exact Or.inl ⟨_, rfl, rfl⟩
    next => exact Or.inr ⟨_, _, rfl, rfl, h.update x fun _ => rfl⟩

end Mirrors

end Store

/-! ## Registries -/

namespace Registry

/-- The second registry is the first one renamed, whatever numbers they give to places. -/
structure Mirrors (ν : Renaming) (r r' : Registry) : Prop where
  store : r.store.Mirrors ν r'.store
  ledger : r'.ledger = r.ledger.rename ν
  splits : r'.splits = r.splits.rename ν

/-- Both registries refuse for the same reason or neither does, and both are left alike. -/
structure Alike {ε α : Type} (ν : Renaming) (result result' : Except ε α × Registry) : Prop where
  answer : result'.1 = result.1
  registry : result.2.Mirrors ν result'.2

namespace Mirrors

variable {r r' : Registry}

theorem enter (h : r.Mirrors ν r') (p q : Place) : (r.enter p).Mirrors ν (r'.enter q) :=
  ⟨h.store, h.ledger, h.splits⟩

theorem withStore (h : r.Mirrors ν r') {store store' : Store} (hstore : store.Mirrors ν store') :
    { r with store }.Mirrors ν { r' with store := store' } :=
  ⟨hstore, h.ledger, h.splits⟩

theorem withLedger (h : r.Mirrors ν r') {ledger ledger' : Ledger} (hledger : ledger' = ledger.rename ν) :
    { r with ledger }.Mirrors ν { r' with ledger := ledger' } :=
  ⟨h.store, hledger, h.splits⟩

theorem declare (h : r.Mirrors ν r') (p : Place) (request : DeclareRequest) :
    Alike ν (r.declare p request) (r'.declare (p.rename ν) (request.rename ν)) := by
  have hentered := h.enter p (p.rename ν)
  rw [Registry.declare, Registry.declare]
  rcases hentered.store.declare p request with ⟨e, hs, ht⟩ | ⟨store, store', hs, ht, hstore⟩
  · simp only [hs, ht]
    exact ⟨rfl, hentered⟩
  · simp only [hs, ht]
    exact ⟨rfl, hentered.withStore hstore⟩

theorem registerFacts (h : r.Mirrors ν r') (p : Place) (facts : TypeFacts) :
    Alike ν (r.registerFacts p facts) (r'.registerFacts (p.rename ν) facts) := by
  rw [Registry.registerFacts, Registry.registerFacts]
  rcases h.store.registerFacts p facts with ⟨e, hs, ht⟩ | ⟨store, store', hs, ht, hstore⟩
  · rw [hs, ht]
    exact ⟨rfl, h⟩
  · rw [hs, ht]
    exact ⟨rfl, (h.enter p (p.rename ν)).withStore hstore⟩

theorem assignHolder (h : r.Mirrors ν r') (x : Symbol) (kind : BorrowKind) :
    Alike ν (r.assignHolder x kind) (r'.assignHolder (ν.symbol x) kind) := by
  rw [Registry.assignHolder, Registry.assignHolder]
  rcases h.store.assignHolder x kind with ⟨e, hs, ht⟩ | ⟨store, store', hs, ht, hstore⟩
  · rw [hs, ht]
    exact ⟨rfl, h⟩
  · rw [hs, ht]
    exact ⟨rfl, h.withStore hstore⟩

theorem retire (h : r.Mirrors ν r') (p : Place) : (r.retire p).Mirrors ν (r'.retire (p.rename ν)) := by
  rw [Registry.retire, Registry.retire, Place.isVar_rename]
  split
  next => exact h.withStore (h.store.retire p)
  next => exact (h.enter p (p.rename ν)).withStore (h.store.retire p)

theorem permissions (h : r.Mirrors ν r') (p : Place) : r'.permissions (p.rename ν) = r.permissions p := by
  rw [Registry.permissions, Registry.permissions, h.ledger, h.store.permissions]

theorem release (h : r.Mirrors ν r') (id : LoanId) : (r.release id).Mirrors ν (r'.release id) :=
  h.withLedger (h.ledger ▸ Ledger.release_rename ν r.ledger id)

theorem expire (h : r.Mirrors ν r') (now : Nat) : (r.expire now).Mirrors ν (r'.expire now) :=
  h.withLedger (h.ledger ▸ Ledger.expire_rename ν r.ledger now)

theorem releaseScope (h : r.Mirrors ν r') (id : ScopeId) : (r.releaseScope id).Mirrors ν (r'.releaseScope (ν.scope id)) :=
  h.withLedger (h.ledger ▸ Ledger.releaseScope_rename ν r.ledger id)

theorem releaseHeldBy (h : r.Mirrors ν r') (holder : Place) :
    (r.releaseHeldBy holder).Mirrors ν (r'.releaseHeldBy (holder.rename ν)) :=
  h.withLedger (h.ledger ▸ Ledger.releaseHeldBy_rename ν r.ledger holder)

theorem releaseEach (h : r.Mirrors ν r') (ids : List LoanId) : (r.releaseEach ids).Mirrors ν (r'.releaseEach ids) :=
  h.withLedger (h.ledger ▸ Ledger.releaseEach_rename ν r.ledger ids)

theorem transfer (h : r.Mirrors ν r') (source target : Place) :
    (r.transfer source target).2.Mirrors ν (r'.transfer (source.rename ν) (target.rename ν)).2 :=
  ((h.enter source (source.rename ν)).enter target (target.rename ν)).withLedger
    (h.ledger ▸ Ledger.transfer_rename ν r.ledger source target)

theorem withdraw (h : r.Mirrors ν r') (p : Place) : (r.withdraw p).Mirrors ν (r'.withdraw (p.rename ν)) :=
  (h.releaseHeldBy p).retire p

theorem relocate (h : r.Mirrors ν r') (source target : Place) (isReference : Bool) :
    (r.relocate source target isReference).Mirrors ν (r'.relocate (source.rename ν) (target.rename ν) isReference) := by
  rw [Registry.relocate, Registry.relocate]
  split
  next => exact (h.transfer source target).withdraw source
  next => exact h.withdraw source

theorem split (h : r.Mirrors ν r') (array : Place) (boundary : Nat) (scope : ScopeId) :
    (r.split array boundary scope).2.Mirrors ν (r'.split (array.rename ν) boundary (ν.scope scope)).2 where
  store := h.store
  ledger := h.ledger
  splits := by
    change r'.splits.insert _ = (r.splits.insert _).rename ν
    rw [h.splits, ← Splits.insert_rename]
    rfl

theorem discardSplits (h : r.Mirrors ν r') (scope : ScopeId) :
    (r.discardSplits scope).Mirrors ν (r'.discardSplits (ν.scope scope)) where
  store := h.store
  ledger := h.ledger
  splits := by
    change r'.splits.discard _ = (r.splits.discard scope).rename ν
    rw [h.splits, Splits.discard_rename]

theorem foldl_releaseHeldBy (h : r.Mirrors ν r') (holders : List Place) :
    (holders.foldl Registry.releaseHeldBy r).Mirrors ν
      ((holders.map (·.rename ν)).foldl Registry.releaseHeldBy r') := by
  induction holders generalizing r r' with
  | nil => exact h
  | cons holder holders ih => exact ih (h.releaseHeldBy holder)

theorem bury (h : r.Mirrors ν r') (p : Place) :
    (r'.bury (p.rename ν)).1 = (r.bury p).1.map (·.rename ν) ∧ (r.bury p).2.Mirrors ν (r'.bury (p.rename ν)).2 := by
  -- the loans that are left have the same numbers
  have hids : r'.ledger.lentIds (p.rename ν) = r.ledger.lentIds p := by rw [h.ledger, Ledger.lentIds_rename]
  rw [Registry.bury, Registry.bury, hids]
  refine ⟨?_, (h.releaseEach _).withdraw p⟩
  cases (r.ledger.lentIds p).head? with
  | none => rfl
  | some id =>
    simp only [Option.bind_some, h.ledger, Ledger.get?_rename, Option.map_map]
    rfl

/-- Lives end alike, and the first fault is the same. -/
theorem buryAll (h : r.Mirrors ν r') (ps : List Place) :
    (r'.buryAll (ps.map (·.rename ν))).1 = (r.buryAll ps).1.map (·.rename ν) ∧
      (r.buryAll ps).2.Mirrors ν (r'.buryAll (ps.map (·.rename ν))).2 := by
  induction ps generalizing r r' with
  | nil => exact ⟨rfl, h⟩
  | cons p ps ih =>
    obtain ⟨hfault, hburied⟩ := h.bury p
    obtain ⟨hlater, hregistry⟩ := ih hburied
    refine ⟨?_, hregistry⟩
    simp only [List.map_cons, Registry.buryAll, hfault, hlater]
    cases (r.bury p).1 <;> rfl

/-- Loans are lent alike, with the same numbers, or refused for corresponding reasons. -/
theorem borrow (h : r.Mirrors ν r') (request : LoanRequest) (nesting : Nesting) :
    (r'.borrow (request.rename ν) nesting).1 = (r.borrow request nesting).1.mapError (·.rename ν) ∧
      (r.borrow request nesting).2.Mirrors ν (r'.borrow (request.rename ν) nesting).2 := by
  have hentered := (h.enter request.source (request.rename ν).source).enter request.holder (request.rename ν).holder
  rw [Registry.borrow, Registry.borrow]
  simp only [hentered.ledger, Ledger.borrow_rename]
  cases ((r.enter request.source).enter request.holder).ledger.borrow request nesting with
  | error e => exact ⟨rfl, hentered⟩
  | ok result => exact ⟨rfl, hentered.withLedger rfl⟩

end Mirrors

end Registry

end BorrowChecker
