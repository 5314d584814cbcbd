import BorrowChecker.Proofs.History
import BorrowChecker.Proofs.Restoration

/-!
# What is known of types

What is known of the types of a variable and its parts is read off the history. An operation tells at most one thing about
types (`Event.registers?`): with which facts a new life of a variable begins, the facts of one part, or that a variable is
made to hold a reference. The view of the store that these make up (`Knowledge`) is computed from them one by one
(`History.known`), so nothing else that happens to the store counts, and of the lives of a variable only the latest does
(`facts_follow_latest_registration`).
-/

namespace BorrowChecker

/-! ## What an operation tells -/

inductive Registration where
  /-- A new life of a variable begins. -/
  | life (x : Symbol) (facts : TypeFacts)
  /-- A part has facts of its own. -/
  | part (p : Place) (facts : TypeFacts)
  /-- A variable that is alive is made to hold a reference. -/
  | holder (x : Symbol) (kind : BorrowKind)
deriving DecidableEq, Repr

namespace Registration

/-- What is told of a place that is declared. -/
def declared (p : Place) (facts : TypeFacts) : Registration :=
  if p.isVar then .life p.root facts else .part p facts

def ofLife? (x : Symbol) : Registration → Option TypeFacts
  | .life y facts => if y = x then some facts else none
  | _ => none

def ofPart? (q : Place) : Registration → Option TypeFacts
  | .part p facts => if p = q then some facts else none
  | _ => none

def ofHolder? (x : Symbol) : Registration → Option BorrowKind
  | .holder y kind => if y = x then some kind else none
  | _ => none

end Registration

/-- What an operation tells of types. A binding tells it when its target can be declared, be it accepted or not, and so does
a borrow whose holder is a variable that is not alive. The value that an accepted binding moves may be a reference. -/
def Session.registers? (s : Session) (accepted : Bool) : Operation → Option Registration
  | .bind target init mutable perms facts =>
    if (s.store.declare target ⟨perms, mutable, facts, s.currentScope, none⟩).isOk then
      some (.declared target (if accepted then ((s.movedFrom? init).bind s.heldKind?).elim facts .reference else facts))
    else none
  | .borrow _ kind holder _ =>
    if !holder.isVar then none
    else if !s.rootLive holder then some (.life holder.root (.reference kind))
    else if accepted then some (.holder holder.root kind)
    else none
  | .project p facts => if accepted && !p.isVar then some (.part p facts) else none
  | _ => none

def Event.registers? (e : Event) : Option Registration :=
  if e.session.stopped then none else e.session.registers? (e.verdict = .ok) e.op

namespace Event

/-- The facts that a new life of the variable begins with. -/
def begins? (e : Event) (x : Symbol) : Option TypeFacts := e.registers?.bind (·.ofLife? x)

/-- The facts that are told of exactly this part. -/
def tells? (e : Event) (q : Place) : Option TypeFacts := e.registers?.bind (·.ofPart? q)

/-- The kind of reference that the variable, alive already, is made to hold. -/
def stores? (e : Event) (x : Symbol) : Option BorrowKind := e.registers?.bind (·.ofHolder? x)

end Event

/-- The latest life of a variable began with these facts, and then the operations `since` were met. -/
def Life (past : List Event) (x : Symbol) (facts : TypeFacts) (since : List Event) : Prop :=
  ∃ e earlier, past = since ++ e :: earlier ∧ e.begins? x = some facts ∧ ∀ later ∈ since, later.begins? x = none

theorem Life.cons {past since : List Event} {x : Symbol} {facts : TypeFacts} (h : Life past x facts since) {e : Event}
    (he : e.begins? x = none) : Life (e :: past) x facts (e :: since) := by
  obtain ⟨first, earlier, rfl, hfirst, hlater⟩ := h
  exact ⟨first, earlier, rfl, hfirst, List.forall_mem_cons.mpr ⟨he, hlater⟩⟩

/-- There is one latest life. -/
theorem Life.unique {past since since' : List Event} {x : Symbol} {facts facts' : TypeFacts}
    (h : Life past x facts since) (h' : Life past x facts' since') : facts = facts' ∧ since = since' := by
  obtain ⟨first, earlier, rfl, hfirst, hlater⟩ := h
  obtain ⟨first', earlier', hpast, hfirst', hlater'⟩ := h'
  induction since generalizing since' with
  | nil =>
    cases since' with
    | nil =>
      cases hpast
      exact ⟨Option.some.inj (hfirst.symm.trans hfirst'), rfl⟩
    | cons e since' =>
      cases hpast
      exact absurd (hfirst.symm.trans (hlater' first List.mem_cons_self)) (by simp)
  | cons e since ih =>
    cases since' with
    | nil =>
      cases hpast
      exact absurd (hfirst'.symm.trans (hlater first' List.mem_cons_self)) (by simp)
    | cons e' since' =>
      obtain ⟨rfl, hrest⟩ := List.cons_eq_cons.mp hpast
      rw [List.forall_mem_cons] at hlater hlater'
      exact (ih hlater.2 hrest hlater'.2).imp_right (congrArg (e :: ·))

/-! ## The view of the store -/

/-- What is known of types: of the variables that are declared, and of single parts. -/
@[ext]
structure Knowledge where
  var : Symbol → Option TypeFacts
  part : Place → Option TypeFacts

def Store.known (store : Store) : Knowledge := ⟨fun x => (store.find? x).map (·.facts), store.factsAt?⟩

namespace Knowledge

/-- A new life starts from nothing, and a reference that is stored takes the place of the old value. -/
def record (k : Knowledge) : Registration → Knowledge
  | .life x facts =>
    ⟨fun y => if y = x then some facts else k.var y, fun q => if q.root = x then none else k.part q⟩
  | .part p facts => { k with part := fun q => if q = p then some facts else k.part q }
  | .holder x kind => { k with var := fun y => if y = x then (k.var y).map fun _ => .reference kind else k.var y }

def after (k : Knowledge) (told : Option Registration) : Knowledge := told.elim k k.record

/-- What is known after a history. -/
def ofHistory : List Event → Knowledge
  | [] => ⟨fun _ => none, fun _ => none⟩
  | e :: past => (ofHistory past).after e.registers?

variable {k : Knowledge} {told : Option Registration} {x : Symbol}

theorem var_after (h : told.bind (·.ofLife? x) = none) :
    (k.after told).var x = (k.var x).map fun facts => (told.bind (·.ofHolder? x)).elim facts .reference := by
  cases told with
  | none => exact Option.map_id'.symm
  | some r =>
    cases r with
    | life y facts =>
      have hy : ¬ y = x := by simpa [Registration.ofLife?] using h
      simp [after, record, Registration.ofHolder?, Ne.symm hy]
    | part p facts => simp [after, record, Registration.ofHolder?]
    | holder y kind =>
      by_cases hy : x = y
      · subst hy
        simp [after, record, Registration.ofHolder?]
      · simp [after, record, Registration.ofHolder?, hy, Ne.symm hy]

theorem part_after (h : told.bind (·.ofLife? x) = none) {q : Place} (hq : q.root = x) :
    (k.after told).part q = (told.bind (·.ofPart? q)).or (k.part q) := by
  cases told with
  | none => rfl
  | some r =>
    cases r with
    | life y facts =>
      have hy : ¬ y = x := by simpa [Registration.ofLife?] using h
      simp [after, record, Registration.ofPart?, hq, Ne.symm hy]
    | part p facts =>
      by_cases hp : q = p
      · subst hp
        simp [after, record, Registration.ofPart?]
      · simp [after, record, Registration.ofPart?, hp, Ne.symm hp]
    | holder y kind => simp [after, record, Registration.ofPart?]

/-- A life starts from nothing. -/
theorem after_of_life {facts : TypeFacts} (h : told.bind (·.ofLife? x) = some facts) :
    (k.after told).var x = some facts ∧ ∀ q : Place, q.root = x → (k.after told).part q = none := by
  obtain ⟨r, rfl, hr⟩ := Option.bind_eq_some_iff.mp h
  cases r with
  | life y first =>
    obtain ⟨rfl, rfl⟩ : y = x ∧ first = facts := by simpa [Registration.ofLife?] using hr
    exact ⟨if_pos rfl, fun q hq => if_pos hq⟩
  | part p first => exact absurd hr (by simp [Registration.ofLife?])
  | holder y kind => exact absurd hr (by simp [Registration.ofLife?])

end Knowledge

namespace Store

variable {store store' : Store} {p : Place}

theorem var_known_update {x : Symbol} {f : Declaration → Declaration} (hf : ∀ decl, (f decl).name = decl.name)
    (y : Symbol) : (store.update x f).known.var y =
      if y = x then (store.find? y).map fun decl => (f decl).facts else store.known.var y := by
  rw [known]
  split
  next h =>
    subst h
    change ((store.update y f).find? y).map (·.facts) = _
    rw [find?_update_self hf, Option.map_map]
    rfl
  next h =>
    change ((store.update x f).find? y).map (·.facts) = _
    rw [find?_update_of_ne hf h]
    rfl

theorem known_retire (p : Place) : (store.retire p).known = store.known := by
  rw [retire]
  split
  · refine Knowledge.ext (funext fun x => ?_) rfl
    rw [var_known_update]
    · split <;> rfl
    · exact fun _ => rfl
  · rfl

theorem known_foldl_retire (ps : List Place) : (ps.foldl retire store).known = store.known := by
  induction ps generalizing store with
  | nil => rfl
  | cons p ps ih => rw [List.foldl_cons, ih, known_retire]

theorem known_setFacts (hpart : p.isVar = false) (facts : TypeFacts) :
    (store.setFacts p facts).known = store.known.record (.part p facts) := by
  refine Knowledge.ext rfl (funext fun q => ?_)
  change (store.setFacts p facts).factsAt? q = if q = p then some facts else store.factsAt? q
  split
  next h =>
    subst h
    exact factsAt?_setFacts_self hpart
  next h => exact factsAt?_setFacts_of_ne h

theorem known_declareVar {request : DeclareRequest} (h : store.declareVar p request = .ok store') :
    store'.known = store.known.record (.life p.root request.facts) := by
  refine Knowledge.ext (funext fun y => ?_) (funext fun q => ?_)
  · change (store'.find? y).map (·.facts) = if y = p.root then some request.facts else (store.find? y).map (·.facts)
    split
    next hy =>
      subst hy
      rw [find?_declareVar_self h]
      rfl
    next hy => rw [find?_declareVar_of_ne h hy]
  · change store'.factsAt? q = if q.root = p.root then none else store.factsAt? q
    split
    next hroot => exact factsAt?_declareVar_self h hroot
    next hroot =>
      obtain ⟨-, rfl⟩ := declareVar_eq_ok_iff.mp h
      rw [factsAt?, factsAt?, lookup_filter_of_key (f := (·.root != p.root)) (bne_iff_ne.mpr hroot)]

/-- Whether a place can be declared does not depend on what is asked for. -/
theorem exists_declare {request : DeclareRequest} (h : store.declare p request = .ok store') (other : DeclareRequest) :
    ∃ store'', store.declare p other = .ok store'' := by
  rcases declare_eq_ok_iff.mp h with ⟨hvar, hdeclare⟩ | ⟨hpart, hput⟩
  · have hdead := (declareVar_eq_ok_iff.mp hdeclare).1
    exact ⟨_, declare_eq_ok_iff.mpr (Or.inl ⟨hvar, declareVar_eq_ok_iff.mpr ⟨hdead, rfl⟩⟩)⟩
  · obtain ⟨hroot, hfree, hmoved, -⟩ := reinitialise_eq_ok_iff.mp hput
    exact ⟨_, declare_eq_ok_iff.mpr (Or.inr ⟨hpart, reinitialise_eq_ok_iff.mpr ⟨hroot, hfree, hmoved, rfl⟩⟩)⟩

theorem known_declare {request : DeclareRequest} (h : store.declare p request = .ok store') :
    store'.known = store.known.record (.declared p request.facts) := by
  rcases declare_eq_ok_iff.mp h with ⟨hvar, hdeclare⟩ | ⟨hpart, hput⟩
  · rw [Registration.declared, if_pos hvar, known_declareVar hdeclare]
  · obtain ⟨-, -, -, rfl⟩ := reinitialise_eq_ok_iff.mp hput
    rw [known_setFacts hpart, Registration.declared, hpart]
    rfl

theorem known_assignHolder {x : Symbol} {kind : BorrowKind} (h : store.assignHolder x kind = .ok store') :
    store'.known = store.known.record (.holder x kind) := by
  obtain ⟨-, rfl⟩ := assignHolder_eq_ok_iff.mp h
  refine Knowledge.ext (funext fun y => ?_) rfl
  rw [var_known_update]
  · simp only [Knowledge.record, known, Option.map_map]
    rfl
  · exact fun _ => rfl

/-- The facts of a place are those of the longest part on the way that has its own, or those of the variable. -/
theorem factsUnder_cases (store : Store) (decl : Declaration) (p : Place) :
    (∃ path, path <+: p.path ∧ path ≠ [] ∧ store.factsAt? ⟨p.root, path⟩ = some (store.factsUnder decl p) ∧
      ∀ longer, longer <+: p.path → path.length < longer.length → store.factsAt? ⟨p.root, longer⟩ = none) ∨
    ((∀ path, path <+: p.path → store.factsAt? ⟨p.root, path⟩ = none) ∧ store.factsUnder decl p = decl.facts) := by
  induction p using Place.stepInduction with
  | var x =>
    refine Or.inr ⟨fun path hpath => ?_, rfl⟩
    rw [List.prefix_nil.mp hpath]
    rfl
  | project p e ih =>
    have hpath : (p.project e).path = p.path ++ [e] := rfl
    rw [factsUnder_project, hpath]
    cases hown : store.factsAt? (p.project e) with
    | some facts =>
      refine Or.inl ⟨p.path ++ [e], List.prefix_refl _, by simp, hown, fun longer hlonger hlt => ?_⟩
      exact absurd hlonger.length_le (Nat.not_le.mpr hlt)
    | none =>
      rcases ih with ⟨path, hpre, hne, hfacts, hlongest⟩ | ⟨hnone, hfacts⟩
      · refine Or.inl ⟨path, hpre.trans (List.prefix_append _ _), hne, hfacts, fun longer hlonger hlt => ?_⟩
        rcases List.prefix_concat_iff.mp hlonger with rfl | hlonger
        · exact hown
        · exact hlongest longer hlonger hlt
      · refine Or.inr ⟨fun path hpre => ?_, hfacts⟩
        rcases List.prefix_concat_iff.mp hpre with rfl | hpre
        · exact hown
        · exact hnone path hpre

end Store

namespace Session

variable {config : Config} {past : List Event} {s : Session}

/-! ## One operation -/

theorem known_guarded {α : Type} {check : Except Fault α} {change : α → Registry}
    (h : ∀ a, (change a).store.known = s.store.known) : (s.guarded check change).2.store.known = s.store.known := by
  rcases s.guarded_cases check change with ⟨fault, -, hguarded⟩ | ⟨a, -, hguarded⟩
  · rw [hguarded]
  · rw [hguarded]
    exact h a

theorem known_withdraw (r : Registry) (p : Place) : (r.withdraw p).store.known = r.store.known := by
  rw [Registry.store_withdraw, Store.known_retire]

theorem known_endScope (id : ScopeId) : (s.endScope id).2.store.known = s.store.known := by
  rcases s.endScope_cases id with ⟨-, hend⟩ | ⟨-, -, hend⟩
  · rw [hend]
  · rw [hend]
    change ((s.unwound id).buryAll (s.dying id)).2.store.known = _
    rw [Registry.store_buryAll, Store.known_foldl_retire, unwound_frame]
    rfl

theorem facts_bindRequest (held : Option BorrowKind) (mutable : Bool) (perms : PermSet) (facts : TypeFacts) :
    (s.bindRequest held mutable perms facts).facts = held.elim facts .reference := by
  cases held <;> rfl

theorem known_bind (target : Place) (init : Init) (mutable : Bool) (perms : PermSet) (facts : TypeFacts) :
    let op : Operation := .bind target init mutable perms facts
    (s.apply op).2.store.known = s.store.known.after (s.registers? (s.apply op).1.isNone op) := by
  intro op
  change (s.bind target init mutable perms facts).2.store.known =
    s.store.known.after (s.registers? (s.bind target init mutable perms facts).1.isNone op)
  rcases s.bind_cases target init mutable perms facts with
    ⟨fault, -, hbind⟩ | ⟨source, e, -, herror, hbind⟩ | ⟨source, store, hinit, hdeclare, hbind⟩
  · rw [hbind, registers?]
    rcases s.registry.declare_cases target ⟨perms, mutable, facts, s.currentScope, none⟩ with
      ⟨e, hdeclare, hregistry⟩ | ⟨store, hdeclare, hregistry⟩
    · change s.store.declare _ _ = _ at hdeclare
      rw [hregistry, hdeclare]
      rfl
    · change s.store.declare _ _ = _ at hdeclare
      rw [hregistry, hdeclare]
      exact Store.known_declare hdeclare
  · rw [hbind, registers?]
    cases hdeclare : s.store.declare target ⟨perms, mutable, facts, s.currentScope, none⟩ with
    | error => rfl
    | ok store =>
      obtain ⟨_, hok⟩ := Store.exists_declare hdeclare (s.bindRequest (source.bind s.heldKind?) mutable perms facts)
      rw [herror] at hok
      exact absurd hok (by simp)
  · obtain ⟨_, hok⟩ := Store.exists_declare hdeclare ⟨perms, mutable, facts, s.currentScope, none⟩
    have hknown := Store.known_declare hdeclare
    rw [facts_bindRequest, ← movedFrom?_of_checkInit hinit] at hknown
    rw [hbind, registers?, hok]
    refine Eq.trans ?_ hknown
    cases source with
    | none => rfl
    | some p =>
      change (Registry.relocate _ p target _).store.known = _
      rw [Registry.store_relocate, Store.known_retire]

/-- A variable that is not alive can be declared to hold a reference. -/
theorem declareHolder_of_dead {holder : Place} (kind : BorrowKind) (hvar : holder.isVar = true)
    (hdead : s.rootLive holder = false) :
    ∃ store, s.store.declare holder (s.holderRequest kind) = .ok store ∧
      s.declareHolder holder kind = (.ok (), { s with registry := { s.registry.enter holder with store } }) := by
  have hnot : ¬ s.store.Alive holder.root := fun halive => Bool.noConfusion (hdead.symm.trans (rootLive_iff.mpr halive))
  rw [declareHolder]
  rcases s.registry.declare_cases holder (s.holderRequest kind) with ⟨e, herror, -⟩ | ⟨store, hok, hregistry⟩
  · obtain ⟨store, hstart⟩ : ∃ store, s.store.declare holder (s.holderRequest kind) = .ok store :=
      ⟨_, Store.declare_eq_ok_iff.mpr (Or.inl ⟨hvar, Store.declareVar_eq_ok_iff.mpr ⟨hnot, rfl⟩⟩)⟩
    exact absurd (herror.symm.trans hstart) (by simp)
  · rw [holderRequest] at hregistry
    exact ⟨store, hok, by rw [hregistry]⟩

theorem known_declareHolder {holder : Place} (kind : BorrowKind) (hvar : holder.isVar = true)
    (hdead : s.rootLive holder = false) :
    (s.declareHolder holder kind).2.store.known = s.store.known.record (.life holder.root (.reference kind)) := by
  obtain ⟨store, hstore, hdeclare⟩ := declareHolder_of_dead kind hvar hdead
  have hknown := Store.known_declare hstore
  rw [Registration.declared, if_pos hvar] at hknown
  rw [hdeclare]
  exact hknown

/-- What is told by a borrow that fails before its reference is stored. -/
theorem known_ensureHolder (source holder : Place) (kind : BorrowKind) (region : Region) :
    (s.ensureHolder holder kind).store.known =
      s.store.known.after (s.registers? false (.borrow source kind holder region)) := by
  rw [ensureHolder, registers?]
  cases hvar : holder.isVar with
  | false => rfl
  | true =>
    cases hlive : s.rootLive holder with
    | true => rfl
    | false => exact known_declareHolder kind hvar hlive

/-- A reference can always be stored in a variable that is not alive, if nothing of it is lent but by the loan itself. -/
theorem exists_prepareHolder {holder : Place} {id : LoanId} (kind : BorrowKind) (hvar : holder.isVar = true)
    (hdead : s.rootLive holder = false) (hfree : ∀ loan ∈ s.ledger.overlapping holder, loan.id = id) :
    ∃ t, s.prepareHolder holder kind id = .ok t := by
  have hnone : ((s.ledger.overlapping holder).filter (·.id != id)).getLast? = none := by
    rw [List.getLast?_eq_none_iff, List.filter_eq_nil_iff]
    intro loan hloan
    simp [hfree loan hloan]
  obtain ⟨store, -, hdeclare⟩ := declareHolder_of_dead kind hvar hdead
  rw [prepareHolder, hnone, hvar, hdead, hdeclare]
  exact ⟨_, rfl⟩

/-- If the reference of a new loan cannot be stored in a variable, then the variable is alive: no loan is left on one that
is not. -/
theorem rootLive_of_prepareHolder {t : Session} {holder : Place} {kind : BorrowKind} {id : LoanId} {fault : Fault}
    (h : t.prepareHolder holder kind id = .error fault) (hvar : holder.isVar = true) (hsound : s.registry.Sound)
    {request : LoanRequest} {nesting : Nesting} (hlend : s.ledger.borrow request nesting = .ok (id, t.ledger))
    (hstore : t.store = s.store) : s.rootLive holder = true := by
  by_contra hdead
  have hdead' : t.rootLive holder = false := by
    rw [rootLive, hstore]
    exact Bool.eq_false_iff.mpr hdead
  obtain ⟨u, hok⟩ := exists_prepareHolder kind hvar hdead' fun loan hloan => by
    obtain ⟨hmem, hoverlap⟩ := Ledger.mem_overlapping.mp hloan
    rcases hsound.disciplined.mem_of_borrow hlend hmem with ⟨hold, -⟩ | rfl
    · have halive := (Store.live_iff.mp (hsound.grounded loan hold)).1
      rw [Place.root_of_overlaps hoverlap] at halive
      exact absurd (rootLive_iff.mpr halive) hdead
    · rfl
  exact absurd (hok.symm.trans h) (by simp)

theorem known_borrow (hsound : s.registry.Sound) (source : Place) (kind : BorrowKind) (holder : Place)
    (region : Region) :
    let op : Operation := .borrow source kind holder region
    (s.apply op).2.store.known = s.store.known.after (s.registers? (s.apply op).1.isNone op) := by
  intro op
  change (s.borrow source kind holder region).2.store.known =
    s.store.known.after (s.registers? (s.borrow source kind holder region).1.isNone op)
  rcases s.borrow_cases source kind holder region with
    ⟨fault, -, hborrow⟩ | ⟨stop, -, ⟨e, -, hborrow⟩ | ⟨id, ledger, hlend, hrest⟩⟩
  · rw [hborrow]
    exact known_ensureHolder source holder kind region
  · rw [hborrow]
    exact known_ensureHolder (s := { s with registry := (s.registry.enter source).enter holder }) source holder kind region
  · rcases hrest with ⟨fault, hprepare, hborrow⟩ | ⟨t, hprepare, hborrow⟩
    · rw [hborrow, registers?]
      cases hvar : holder.isVar with
      | false => rfl
      | true =>
        -- the loan is taken back and the variable, being alive, is left as it is
        rw [rootLive_of_prepareHolder hprepare hvar hsound hlend rfl]
        rfl
    · rw [hborrow, registers?]
      rcases (prepareHolder_cases hprepare).2 with
        ⟨hpart, -, rfl⟩ | ⟨hvar, store, hassign, rfl⟩ | ⟨hvar, store, hdeclare, rfl⟩
      · rw [hpart]
        rfl
      · obtain ⟨⟨decl, hfind, hlive, -⟩, -⟩ := Store.assignHolder_eq_ok_iff.mp hassign
        have hroot : s.rootLive holder = true := rootLive_iff.mpr (Store.alive_iff.mpr ⟨decl, hfind, hlive⟩)
        rw [hvar, hroot]
        exact Store.known_assignHolder hassign
      · rcases Store.declare_eq_ok_iff.mp hdeclare with ⟨-, hstart⟩ | ⟨hpart, -⟩
        · have hroot : s.rootLive holder = false :=
            Bool.eq_false_iff.mpr fun hlive => (Store.declareVar_eq_ok_iff.mp hstart).1 (rootLive_iff.mp hlive)
          rw [hvar, hroot]
          exact Store.known_declareVar hstart
        · exact Bool.noConfusion (hvar.symm.trans hpart)

theorem known_apply (hsound : s.registry.Sound) (op : Operation) :
    (s.apply op).2.store.known = s.store.known.after (s.registers? (s.apply op).1.isNone op) := by
  cases op with
  | scopeBegin id =>
    rcases s.beginScope_cases id with hbegin | ⟨-, hbegin⟩
    · rw [apply, hbegin]
      rfl
    · rw [apply, hbegin]
      rfl
  | scopeEnd id => exact known_endScope id
  | bind target init mutable perms facts => exact known_bind target init mutable perms facts
  | borrow source kind holder region => exact known_borrow hsound source kind holder region
  | project p facts =>
    rcases s.guarded_cases (s.checkPath p) fun _ =>
      if p.isVar then s.registry else (s.registry.registerFacts p facts).2 with
      ⟨fault, -, hguarded⟩ | ⟨_, hpath, hguarded⟩
    · rw [apply, project, hguarded]
      rfl
    · rw [apply, project, hguarded, registers?]
      cases hvar : p.isVar with
      | true => rfl
      | false =>
        have hstore : s.registry.store.registerFacts p facts = .ok (s.store.setFacts p facts) :=
          Store.registerFacts_eq_ok_iff.mpr ⟨(checkPath_eq_ok_iff.mp hpath).1, rfl⟩
        rw [if_neg Bool.false_ne_true, Registry.registerFacts, hstore]
        exact Store.known_setFacts hvar facts
  | move p => exact known_guarded fun _ => known_withdraw _ p
  | drop p => exact known_guarded fun _ => known_withdraw _ p
  | copy p =>
    refine known_guarded fun moves => ?_
    cases moves with
    | false => rfl
    | true => exact known_withdraw _ p
  | mutate p => exact known_guarded fun _ => rfl
  | access p needs => exact known_guarded fun _ => rfl
  | release p => exact known_guarded fun _ => rfl
  | split array boundary => exact known_guarded fun _ => rfl
  | unchecked p => rfl

theorem registers?_refreshed (s : Session) (accepted : Bool) (op : Operation) :
    s.refreshed.registers? accepted op = s.registers? accepted op := by
  cases op <;> rfl

/-- Whatever the verdict, a step changes what is known by what the operation tells. -/
theorem known_step (hs : Reachable config s) (op : Operation) :
    (s.step op).2.store.known = s.store.known.after (Event.registers? ⟨s, op⟩) := by
  rw [Event.registers?]
  cases hrun : s.stopped with
  | true =>
    rw [step_of_stopped hrun]
    rfl
  | false =>
    have hsound : s.refreshed.registry.Sound :=
      ⟨hs.refreshed_disciplined, fun loan hloan => hs.sound.grounded loan (mem_refreshed_iff.mp hloan).1⟩
    have haccepted : decide (Event.verdict ⟨s, op⟩ = .ok) = (s.refreshed.apply op).1.isNone := by
      rw [Event.verdict, Bool.eq_iff_iff, decide_eq_true_iff, step_ok_iff hrun, Option.isNone_iff_eq_none]
    obtain ⟨stopped, hstep⟩ := s.step_running hrun op
    rw [hstep, if_neg Bool.false_ne_true, haccepted, ← registers?_refreshed]
    exact known_apply hsound op

/-- What is known is what the operations so far have told. -/
theorem History.known (h : History config past s) : s.store.known = .ofHistory past := by
  induction h with
  | start => exact Knowledge.ext rfl (funext fun _ => ite_self _)
  | step op hbefore ih => rw [known_step hbefore.reachable, ih, Knowledge.ofHistory]
  | paired ops _ ih => exact ih

/-! ## The latest life -/

/-- What a history tells of a variable and its parts is told in the latest life of the variable. -/
theorem exists_life {x : Symbol} {facts : TypeFacts} (h : (Knowledge.ofHistory past).var x = some facts) :
    ∃ first since, Life past x first since ∧ facts = (since.findSome? (·.stores? x)).elim first .reference ∧
      ∀ q : Place, q.root = x → (Knowledge.ofHistory past).part q = since.findSome? (·.tells? q) := by
  induction past generalizing facts with
  | nil => exact absurd h (by simp [Knowledge.ofHistory])
  | cons e past ih =>
    rw [Knowledge.ofHistory] at h ⊢
    cases hbegins : e.begins? x with
    | some first =>
      -- what has been told before belongs to an earlier life
      obtain ⟨hvar, hparts⟩ := Knowledge.after_of_life hbegins
      rw [hvar] at h
      cases h
      exact ⟨_, [], ⟨e, past, rfl, hbegins, fun _ hlater => absurd hlater List.not_mem_nil⟩, rfl, hparts⟩
    | none =>
      rw [Knowledge.var_after hbegins, Option.map_eq_some_iff] at h
      obtain ⟨before, hbefore, rfl⟩ := h
      obtain ⟨first, since, hlife, rfl, hparts⟩ := ih hbefore
      refine ⟨first, e :: since, hlife.cons hbegins, ?_, fun q hq => ?_⟩
      · rw [List.findSome?_cons, Event.stores?]
        cases e.registers?.bind (·.ofHolder? x) <;> rfl
      · rw [Knowledge.part_after hbegins hq, hparts q hq, List.findSome?_cons, Event.tells?]
        cases e.registers?.bind (·.ofPart? q) <;> rfl

/-- **Types are known from what was told last.** For every place whose variable is declared, the history has a latest
beginning of a life of that variable. The facts of the place are those that were told last, since then, of the longest part
on the way to the place that was told of at all. If none was, they are those that the life began with, or those of the
reference that the variable was last made to hold since. -/
theorem facts_follow_latest_registration (h : History config past s) {p : Place}
    (hdeclared : (s.store.find? p.root).isSome = true) :
    ∃ first since facts, Life past p.root first since ∧ s.store.factsOf? p = some facts ∧
      ((∃ path, path <+: p.path ∧ path ≠ [] ∧ since.findSome? (·.tells? ⟨p.root, path⟩) = some facts ∧
          ∀ longer, longer <+: p.path → path.length < longer.length → since.findSome? (·.tells? ⟨p.root, longer⟩) = none) ∨
        ((∀ path, path <+: p.path → path ≠ [] → since.findSome? (·.tells? ⟨p.root, path⟩) = none) ∧
          facts = (since.findSome? (·.stores? p.root)).elim first .reference)) := by
  obtain ⟨decl, hfind⟩ := Option.isSome_iff_exists.mp hdeclared
  have hvar : (Knowledge.ofHistory past).var p.root = some decl.facts := by
    rw [← h.known]
    exact congrArg (Option.map (·.facts)) hfind
  obtain ⟨first, since, hlife, hfirst, hparts⟩ := exists_life hvar
  have hpart : ∀ path, s.store.factsAt? ⟨p.root, path⟩ = since.findSome? (·.tells? ⟨p.root, path⟩) := by
    intro path
    rw [← hparts ⟨p.root, path⟩ rfl, ← h.known]
    rfl
  refine ⟨first, since, s.store.factsUnder decl p, hlife, by rw [Store.factsOf?, hfind]; rfl, ?_⟩
  have hcases := s.store.factsUnder_cases decl p
  simp only [hpart, hfirst] at hcases
  exact hcases.imp_right fun hnone => ⟨fun path hpre _ => hnone.1 path hpre, hnone.2⟩

/-- In its first life a variable has had facts told of a part inside a field. In the second life the field is told of, and
then a reference is stored into the variable. The part has the facts of the field, and the variable those of the
reference. -/
theorem facts_of_second_life :
    let field : Place := ⟨⟨0⟩, [.field ⟨1⟩]⟩
    let ops : List Operation := [.bindFreshMut (.var ⟨0⟩), .project (field.project .deref) .plain, .move (.var ⟨0⟩),
      .bindFreshMut (.var ⟨2⟩), .bindFreshMut (.var ⟨0⟩), .project field (.reference .exclusive),
      .borrowShared (.var ⟨2⟩) (.var ⟨0⟩) (.scope .root)]
    let s := (({} : Session).run ops).2
    let past := (({} : Session).paired ops).eventsAfter [] ops
    past.findSome? (·.tells? (field.project .deref)) = some .plain ∧
    Life past ⟨0⟩ .owned (past.take 2) ∧
    (∃ path, path <+: (field.project .deref).path ∧
      s.store.factsOf? (field.project .deref) = (past.take 2).findSome? (·.tells? ⟨⟨0⟩, path⟩)) ∧
    s.store.factsOf? (.var ⟨0⟩) = some (.reference .shared) := by
  intro field ops s past
  have hs : History {} past s := History.run .start ops
  have hlife : Life past ⟨0⟩ .owned (past.take 2) := ⟨past.get ⟨2, by decide⟩, past.drop 3, rfl, by decide, by decide⟩
  refine ⟨by decide, hlife, ?_, ?_⟩
  · obtain ⟨first, since, facts, hlife', hfacts, hcases⟩ :=
      facts_follow_latest_registration hs (p := field.project .deref) (by decide)
    obtain ⟨-, rfl⟩ := hlife.unique hlife'
    rcases hcases with ⟨path, hpath, -, htold, -⟩ | ⟨hnone, -⟩
    · exact ⟨path, hpath, hfacts.trans htold.symm⟩
    · exact absurd (hnone field.path (by decide) (by decide)) (by decide)
  · obtain ⟨first, since, facts, hlife', hfacts, hcases⟩ :=
      facts_follow_latest_registration hs (p := .var ⟨0⟩) (by decide)
    obtain ⟨rfl, rfl⟩ := hlife.unique hlife'
    rcases hcases with ⟨path, hpath, hne, -⟩ | ⟨-, rfl⟩
    · exact absurd (List.prefix_nil.mp hpath) hne
    · rw [hfacts]
      decide

end Session

end BorrowChecker
