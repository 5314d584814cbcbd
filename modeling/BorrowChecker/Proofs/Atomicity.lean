import BorrowChecker.Proofs.Faults
import BorrowChecker.Proofs.Soundness

/-!
# Rejected operations are atomic

A rejected operation leaves loans, splits and scopes as they are, and the store too, unless it has a destination that
can be declared: then the store is the one that the declaration makes, and the parts of other variables do not notice.
Places may have been numbered, and a loan that was entered and taken back has used up its number. The only rejected
operation with further effects is the closing of a scope that a loan outlives.
-/

namespace BorrowChecker

theorem PlaceTable.prefix_insert (table : PlaceTable) (p : Place) : table.places <+: (table.insert p).places := by
  rw [insert, intern]
  split
  · exact List.prefix_refl _
  · exact List.prefix_append _ _

namespace Session

variable {s t : Session} {op : Operation} {fault : Fault}

/-- The store that is left when a rejected operation declares its destination all the same. -/
inductive Leftover (s : Session) : Operation → Store → Prop where
  | bind {target : Place} {init : Init} {mutable : Bool} {perms : PermSet} {facts : TypeFacts} {store : Store} :
      s.store.declare target ⟨perms, mutable, facts, s.currentScope, none⟩ = .ok store →
      Leftover s (.bind target init mutable perms facts) store
  | borrow {source : Place} {kind : BorrowKind} {holder : Place} {region : Region} {store : Store} :
      holder.isVar = true → ¬ s.store.Alive holder.root →
      s.store.declare holder ⟨kind.grants, false, .reference kind, s.currentScope, some kind⟩ = .ok store →
      Leftover s (.borrow source kind holder region) store

/-- What a rejected operation leaves of the session that it was applied to. -/
structure Refused (s : Session) (op : Operation) (t : Session) : Prop where
  frame : t = { s with registry := t.registry }
  loans : t.ledger.loans = s.ledger.loans
  numbers : s.ledger.nextId ≤ t.ledger.nextId
  splits : t.splits = s.splits
  places : s.registry.places.places <+: t.registry.places.places
  store : t.store = s.store ∨ s.Leftover op t.store

theorem Refused.refl (s : Session) (op : Operation) : Refused s op s :=
  ⟨rfl, rfl, Nat.le_refl _, rfl, List.prefix_refl _, Or.inl rfl⟩

/-- Numbering a place more makes no difference. -/
theorem Refused.enter (h : Refused s op t) (p : Place) : Refused s op { t with registry := t.registry.enter p } where
  frame := by rw [h.frame]
  loans := h.loans
  numbers := h.numbers
  splits := h.splits
  places := h.places.trans (PlaceTable.prefix_insert _ p)
  store := h.store

/-- A declaration is left over if the operation stands for it and nothing has been declared before. -/
theorem Refused.declare (h : Refused s op t) (hstore : t.store = s.store) {p : Place} {request : DeclareRequest}
    (hleft : ∀ store, s.store.declare p request = .ok store → s.Leftover op store) :
    Refused s op { t with registry := (t.registry.declare p request).2 } := by
  rcases t.registry.declare_cases p request with ⟨e, -, hregistry⟩ | ⟨store, hdeclared, hregistry⟩
  · rw [hregistry]
    exact h.enter p
  · rw [hregistry]
    change t.store.declare p request = .ok store at hdeclared
    rw [hstore] at hdeclared
    exact { h.enter p with frame := by rw [h.frame], store := Or.inr (hleft store hdeclared) }

/-! ## One operation at a time -/

theorem guarded_refused {α : Type} {check : Except Fault α} {change : α → Registry}
    (h : (s.guarded check change).1 = some fault) : Refused s op (s.guarded check change).2 := by
  rcases s.guarded_cases check change with ⟨fault', -, hguarded⟩ | ⟨a, -, hguarded⟩
  · rw [hguarded]
    exact Refused.refl s op
  · rw [hguarded] at h
    exact absurd h (by simp)

theorem endScope_refused {id : ScopeId} (h : (s.endScope id).1 = some fault)
    (hkind : fault.kind ≠ .loanOutlivesSource) : Refused s op (s.endScope id).2 := by
  rcases s.endScope_cases id with ⟨-, hsame⟩ | ⟨-, -, hclosed⟩
  · rw [hsame]
    exact Refused.refl s op
  · rw [hclosed] at h
    obtain ⟨p, -, loan, -, rfl, -⟩ := Registry.buryAll_eq_some h
    exact absurd rfl hkind

theorem bind_refused {target : Place} {init : Init} {mutable : Bool} {perms : PermSet} {facts : TypeFacts}
    (h : (s.bind target init mutable perms facts).1 = some fault) :
    Refused s (.bind target init mutable perms facts) (s.bind target init mutable perms facts).2 := by
  rcases s.bind_cases target init mutable perms facts with
    ⟨fault', -, hbind⟩ | ⟨source, e, -, -, hbind⟩ | ⟨source, store, -, -, hbind⟩
  · rw [hbind]
    exact (Refused.refl s _).declare rfl fun store hstore => .bind hstore
  · rw [hbind]
    exact (Refused.refl s _).enter target
  · rw [hbind] at h
    exact absurd h (by simp)

theorem ensureHolder_refused {source : Place} {kind : BorrowKind} {holder : Place} {region : Region}
    (h : Refused s (.borrow source kind holder region) t) (hstore : t.store = s.store) :
    Refused s (.borrow source kind holder region) (t.ensureHolder holder kind) := by
  rcases t.ensureHolder_cases holder kind with hsame | ⟨hvar, hdead, hdeclared⟩
  · rw [hsame]
    exact h
  · rw [hdeclared]
    refine h.declare hstore fun store hleft => ?_
    rw [hstore] at hdead
    rw [h.frame] at hleft
    exact .borrow hvar hdead hleft

theorem borrow_refused (hledger : s.ledger.Disciplined) {source : Place} {kind : BorrowKind} {holder : Place}
    {region : Region} (h : (s.borrow source kind holder region).1 = some fault) :
    Refused s (.borrow source kind holder region) (s.borrow source kind holder region).2 := by
  have hentered := ((Refused.refl s (.borrow source kind holder region)).enter source).enter holder
  rcases s.borrow_cases source kind holder region with ⟨fault', -, hborrow⟩ | ⟨stop, -, hrest⟩
  · rw [hborrow]
    exact ensureHolder_refused (Refused.refl s _) rfl
  · rcases hrest with ⟨e, -, hborrow⟩ | ⟨id, ledger, hlend, hrest⟩
    · rw [hborrow]
      exact ensureHolder_refused hentered rfl
    · rcases hrest with ⟨fault', -, hborrow⟩ | ⟨t, -, hborrow⟩
      · -- the loan had been entered, and it is the one that is taken back
        rw [hborrow]
        have hreleased : (ledger.release id).2 = { s.ledger with nextId := s.ledger.nextId + 1 } :=
          hledger.release_borrow hlend
        refine { hentered with frame := rfl, loans := ?_, numbers := ?_ }
        · show (ledger.release id).2.loans = s.ledger.loans
          rw [hreleased]
        · show s.ledger.nextId ≤ (ledger.release id).2.nextId
          rw [hreleased]
          exact Nat.le_succ _
      · rw [hborrow] at h
        exact absurd h (by simp)

theorem apply_refused (hledger : s.ledger.Disciplined) (h : (s.apply op).1 = some fault)
    (hscope : ∀ id, op = .scopeEnd id → fault.kind ≠ .loanOutlivesSource) : Refused s op (s.apply op).2 := by
  cases op with
  | scopeBegin id =>
    rcases s.beginScope_cases id with hsame | ⟨-, hopened⟩
    · rw [apply, hsame]
      exact Refused.refl s _
    · rw [apply, hopened] at h
      exact absurd h (by simp)
  | scopeEnd id => exact endScope_refused h (hscope id rfl)
  | bind target init mutable perms facts => exact bind_refused h
  | borrow source kind holder region => exact borrow_refused hledger h
  | unchecked p => exact absurd h (by simp [apply])
  | project | move | copy | mutate | access | drop | release | split => exact guarded_refused h

/-! ## One step -/

/-- The session after an operation that is passed over: the loans that have run out are gone, and the next operation
is due. -/
def skipped (s : Session) : Session := { s.refreshed with next := s.next + 1 }

theorem Refused.agree (h : Refused s op t) {q : Place} (hq : ∀ d, op.destination? = some d → q.root ≠ d.root) :
    Store.Agree q.root s.store t.store := by
  rcases h.store with hsame | hleft
  · rw [hsame]
    exact Store.Agree.refl _ _
  · generalize t.store = store at hleft
    cases hleft with
    | bind hdeclared => exact Store.agree_of_declare hdeclared (hq _ rfl)
    | borrow hvar _ hdeclared => exact Store.agree_of_declare hdeclared (hq _ (if_pos hvar))

theorem Refused.isLive {q : Place} (h : Refused s op t) (hq : Store.Agree q.root s.store t.store) :
    t.isLive q = s.isLive q := by
  rw [Session.isLive, Session.isLive, checkLive, checkLive, checkPath, checkPath, hq.find, hq.checkLive, h.splits]

theorem Refused.permissions? {q : Place} (h : Refused s op t) (hq : Store.Agree q.root s.store t.store) :
    t.permissions? q = s.permissions? q := by
  have hsuspended : t.ledger.suspended q = s.ledger.suspended q := by
    rw [Ledger.suspended, Ledger.suspended, Ledger.overlapping, Ledger.overlapping, h.loans]
  show (t.store.permissions t.ledger q).toOption = (s.store.permissions s.ledger q).toOption
  rw [hq.permissions, Store.permissions, Store.permissions, hsuspended]

/-- The step of a rejected operation leaves of the session what the operation itself does, one operation later. -/
theorem step_refused (hledger : s.ledger.Disciplined) {v : Violation} (hv : (s.step op).1 = .violation v)
    (hscope : ∀ id, op = .scopeEnd id → v.kind ≠ .loanOutlivesSource) :
    Refused s.skipped op { (s.step op).2 with stopped := s.stopped } := by
  obtain ⟨-, hfault, hstep⟩ := step_rejected hv
  have hrefused : Refused s.refreshed op (s.refreshed.apply op).2 :=
    apply_refused (hledger.releaseWhere _) hfault hscope
  have hleft : ∀ store, s.refreshed.Leftover op store → s.skipped.Leftover op store := by
    intro store h
    cases h with
    | bind hdeclared => exact .bind hdeclared
    | borrow hvar hdead hdeclared => exact .borrow hvar hdead hdeclared
  rw [hstep]
  generalize (s.refreshed.apply op).2 = t at hrefused
  exact {
    frame := by rw [hrefused.frame]; rfl
    loans := hrefused.loans
    numbers := hrefused.numbers
    splits := hrefused.splits
    places := hrefused.places
    store := hrefused.store.imp_right (hleft _) }

/-- **Rejected operations are atomic.** Compared with passing the operation over, a rejected operation other than the
closing of a scope that a loan outlives leaves the same loans, splits and scopes; it leaves everything known of the parts
of variables that are not its destination; and it leaves the same store, or the one that declaring its destination makes.
Apart from that only the numbers of further places, the number of the next loan and the end of the check may differ. -/
theorem rejected_step_atomic {config : Config} {v : Violation} (hs : Reachable config s)
    (hv : (s.step op).1 = .violation v) (hscope : ∀ id, op = .scopeEnd id → v.kind ≠ .loanOutlivesSource) :
    let t := (s.step op).2
    let u := s.skipped
    (t.ledger.loans = u.ledger.loans ∧ t.splits = u.splits ∧ t.scopes = u.scopes) ∧
    (∀ q : Place, (∀ d, op.destination? = some d → q.root ≠ d.root) →
      t.store.factsOf? q = u.store.factsOf? q ∧ t.store.declared q = u.store.declared q ∧
      t.store.checkLive q = u.store.checkLive q ∧ t.isLive q = u.isLive q ∧ t.permissions? q = u.permissions? q) ∧
    (t.store = u.store ∨ u.Leftover op t.store) ∧
    (u.registry.places.places <+: t.registry.places.places ∧ u.ledger.nextId ≤ t.ledger.nextId ∧
      t = { u with
        stopped := t.stopped
        registry := {
          places := t.registry.places
          store := t.store
          ledger := { u.ledger with nextId := t.ledger.nextId }
          splits := u.splits } }) := by
  intro t u
  have hrefused : Refused u op { t with stopped := s.stopped } :=
    step_refused hs.sound.disciplined hv hscope
  have hscopes : t.scopes = u.scopes := by
    change { t with stopped := s.stopped }.scopes = u.scopes
    rw [hrefused.frame]
  refine ⟨⟨hrefused.loans, hrefused.splits, hscopes⟩, fun q hq => ?_, hrefused.store, hrefused.places,
    hrefused.numbers, ?_⟩
  · have hagree : Store.Agree q.root u.store t.store := hrefused.agree hq
    exact ⟨hagree.factsOf?, hagree.declared, hagree.checkLive, hrefused.isLive hagree, hrefused.permissions? hagree⟩
  · have hledger : t.ledger = { u.ledger with nextId := t.ledger.nextId } :=
      congrArg (Ledger.mk · t.ledger.nextId) hrefused.loans
    have hsplits : t.splits = u.splits := hrefused.splits
    calc t = { ({ t with stopped := s.stopped } : Session) with stopped := t.stopped } := rfl
      _ = { u with registry := t.registry, stopped := t.stopped } := by rw [hrefused.frame]
      _ = _ := by rw [← hledger, ← hsplits]; rfl

/-- A loan that cannot be held is taken back; its number is used up. -/
theorem borrow_into_immutable_taken_back :
    let s := (({} : Session).stepAll [.bindFreshMut (.var ⟨0⟩), .bindFresh (.var ⟨1⟩)]).2
    let t := (s.step (.borrowShared (.var ⟨0⟩) (.var ⟨1⟩) (.scope .root))).2
    (s.step (.borrowShared (.var ⟨0⟩) (.var ⟨1⟩) (.scope .root))).1 =
      .violation { kind := .missingWrite, place := some (.var ⟨1⟩), index := 2 } ∧
    (s.skipped.ledger.nextId = 0 ∧ t.ledger.nextId = 1) ∧
    t.ledger.loans = s.skipped.ledger.loans ∧ t.permissions? (.var ⟨0⟩) = s.skipped.permissions? (.var ⟨0⟩) := by
  intro s t
  have hv : (s.step (.borrowShared (.var ⟨0⟩) (.var ⟨1⟩) (.scope .root))).1 =
      .violation { kind := .missingWrite, place := some (.var ⟨1⟩), index := 2 } := by decide
  obtain ⟨⟨hloans, -⟩, hothers, -⟩ := rejected_step_atomic ((Reachable.start {}).stepAll _ : Reachable {} s) hv
    fun id h => Operation.noConfusion h
  have hother := hothers (.var ⟨0⟩) fun d hd => by cases hd; decide
  exact ⟨hv, by decide, hloans, hother.2.2.2.2⟩

end Session

end BorrowChecker
