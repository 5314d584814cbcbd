import BorrowChecker.Proofs.Revision
import Mathlib.Logic.Relation

/-!
# Small changes of the registry

A revision is a sequence of small changes, each of one part of the registry, except that a place is moved out together
with loans that leave. A property of registries that every small change keeps is therefore kept by every operation,
accepted or rejected (`step_changes`).

For properties that need a revision as a whole, the ledger is disciplined whenever a revision is made (`apply_invariant`).
-/

namespace BorrowChecker

open Relation (ReflTransGen)

namespace Registry

/-- One small change. The places that may be declared are given. -/
inductive Change (declared : Place → Prop) : Registry → Registry → Prop where
  | enter (r : Registry) (p : Place) : Change declared r (r.enter p)
  | declare {r : Registry} {p : Place} {request : DeclareRequest} {store : Store} :
      declared p → r.store.declare p request = .ok store → Change declared r { r with store }
  | describe {r : Registry} {p : Place} {facts : TypeFacts} {store : Store} :
      r.store.registerFacts p facts = .ok store → Change declared r { r with store }
  | assign {r : Registry} {x : Symbol} {kind : BorrowKind} {store : Store} :
      r.store.assignHolder x kind = .ok store → Change declared r { r with store }
  /-- A place is moved out and loans leave. If the loans are in order, none is left on the place. -/
  | retire {r : Registry} {p : Place} {kept : List Loan} :
      kept.Sublist r.ledger.loans → (r.ledger.Disciplined → ∀ loan ∈ kept, loan.source.overlaps p = false) →
      Change declared r { r with store := r.store.retire p, ledger := { r.ledger with loans := kept } }
  | lend {r : Registry} {request : LoanRequest} {nesting : Nesting} {id : LoanId} {ledger : Ledger} :
      r.store.Live request.source → r.ledger.borrow request nesting = .ok (id, ledger) →
      Change declared r { r with ledger }
  /-- Some loans leave. -/
  | depart {r : Registry} {kept : List Loan} :
      kept.Sublist r.ledger.loans → Change declared r { r with ledger := { r.ledger with loans := kept } }
  /-- Loans change hands. -/
  | rehome (r : Registry) (source target : Place) :
      Change declared r { r with ledger := (r.ledger.transfer source target).2 }
  | cut (r : Registry) (splits : Splits) : Change declared r { r with splits }

variable {declared : Place → Prop} {scope : ScopeId} {r r' : Registry} {p : Place}

/-! ## Revisions as small changes -/

theorem releaseWhere_changes (gone : Loan → Bool) :
    ReflTransGen (Change declared) r { r with ledger := (r.ledger.releaseWhere gone).2 } := by
  rw [Ledger.snd_releaseWhere]
  exact .single (.depart List.filter_sublist)

/-- A part that is moved out is numbered first. -/
theorem retire_changes {ledger : Ledger} {kept : List Loan} (hledger : ledger = { r.ledger with loans := kept })
    (hsub : kept.Sublist r.ledger.loans)
    (hfree : r.ledger.Disciplined → ∀ loan ∈ kept, loan.source.overlaps p = false) :
    ReflTransGen (Change declared) r ({ r with ledger }.retire p) := by
  rw [hledger, retire]
  split
  · exact .single (.retire hsub hfree)
  · exact .head (.enter r p) (.single (.retire hsub hfree))

theorem withdraw_changes (h : r.ledger.overlapping p = []) : ReflTransGen (Change declared) r (r.withdraw p) := by
  refine retire_changes (Ledger.snd_releaseWhere _ _) List.filter_sublist fun _ loan hloan => ?_
  exact Ledger.overlapping_eq_nil_iff.mp h loan (List.mem_of_mem_filter hloan)

/-- What dies with its scope loses its loans first. -/
theorem bury_changes (p : Place) : ReflTransGen (Change declared) r (r.bury p).2 := by
  obtain ⟨left, hleft, hreleased⟩ := r.ledger.releaseEach_frame (r.ledger.lentIds p)
  have hledger : ((r.ledger.releaseEach (r.ledger.lentIds p)).releaseHeldBy p).2 =
      { r.ledger with loans := left.filter fun loan => !(({ r.ledger with loans := left } : Ledger).heldIds p).contains loan.id } := by
    rw [hreleased, Ledger.releaseHeldBy, Ledger.snd_releaseWhere]
  refine retire_changes hledger (List.filter_sublist.trans hleft) fun hdisciplined loan hloan => ?_
  have hkept : loan ∈ (r.ledger.releaseEach (r.ledger.lentIds p)).loans := by
    rw [hreleased]
    exact List.mem_of_mem_filter hloan
  rw [hdisciplined.loans_releaseEach_lentIds] at hkept
  simpa using (List.mem_filter.mp hkept).2

theorem lend_changes {request : LoanRequest} {nesting : Nesting} {id : LoanId} {ledger : Ledger}
    (hlive : r.store.Live request.source) (hledger : r.ledger.borrow request nesting = .ok (id, ledger)) :
    ReflTransGen (Change declared) r { (r.enter request.source).enter request.holder with ledger } :=
  .head (.enter _ _) (.head (.enter _ _) (.single (.lend hlive hledger)))

/-- A reference is stored after its loan has been made. -/
theorem stores_changes {request : LoanRequest} {store : Store} (hstores : r.store.Stores scope request store)
    (h : ∀ declaring store', request.holder.isVar = true → r.store.declare request.holder declaring = .ok store' →
      declared request.holder) : ReflTransGen (Change declared) r { r with store } := by
  cases hstores with
  | part _ _ => exact .refl
  | assign _ hassign => exact .single (.assign hassign)
  | declare hvar _ _ hstore => exact .single (.declare (h _ _ hvar hstore) hstore)

theorem Revision.changes {takes : Bool} (h : Revision declared scope r takes r') : ReflTransGen (Change declared) r r' := by
  cases h with
  | declare _ hdeclared hstore => exact .head (.enter _ _) (.single (.declare hdeclared hstore))
  | refuse _ => exact .single (.enter _ _)
  | @rebind source target request store _ _ hdeclared hstore =>
    have hbound : ReflTransGen (Change declared) r { r.enter target with store } :=
      .head (.enter _ _) (.single (.declare hdeclared hstore))
    exact hbound.trans (.head (.enter _ source) (.head (.enter _ target) (.single (.rehome _ source target))))
  | describe _ hstore => exact .head (.enter _ _) (.single (.describe hstore))
  | withdraw _ hfree => exact withdraw_changes hfree
  | bury _ => exact bury_changes _
  | lend hlive hledger hstores hdeclared => exact (lend_changes hlive hledger).trans (stores_changes hstores hdeclared)
  | revoke hlive hledger => exact (lend_changes hlive hledger).tail (.depart List.eraseP_sublist)
  | decline _ => exact .head (.enter _ _) (.single (.enter _ _))
  | release gone => exact releaseWhere_changes gone
  | cut array boundary => exact .head (.enter _ _) (.head (.enter _ _) (.head (.enter _ _) (.single (.cut _ _))))
  | discard id => exact .single (.cut _ _)

theorem Revisions.changes {n : Nat} (h : Revisions declared scope n r r') : ReflTransGen (Change declared) r r' :=
  h.invariant (fun _ _ _ hrevision hbefore => hbefore.trans hrevision.changes) .refl

theorem changes_invariant {P : Registry → Prop} (hchange : ∀ r r', Change declared r r' → P r → P r')
    (h : ReflTransGen (Change declared) r r') (hr : P r) : P r' := by
  induction h with
  | refl => exact hr
  | tail _ hlast ih => exact hchange _ _ hlast ih

/-! ## What is kept throughout -/

/-- A place that is declared is known from its declaration. -/
theorem Change.placed (hchange : Change declared r r') (h : r.store.Placed) : r'.store.Placed := by
  cases hchange with
  | declare _ hstore => exact h.declare hstore
  | describe hstore =>
    obtain ⟨-, rfl⟩ := Store.registerFacts_eq_ok_iff.mp hstore
    exact h
  | assign hstore => exact h.assignHolder hstore
  | retire _ _ => exact h.retire _
  | enter | lend | depart | rehome | cut => exact h

theorem Change.disciplined (hchange : Change declared r r') (h : r.ledger.Disciplined) : r'.ledger.Disciplined := by
  cases hchange with
  | retire hsub _ => exact h.of_sublist hsub
  | lend _ hledger => exact h.borrow hledger
  | depart hsub => exact h.of_sublist hsub
  | rehome source target => exact h.transfer source target
  | enter | declare | describe | assign | cut => exact h

theorem Revision.disciplined {takes : Bool} (hrevision : Revision declared scope r takes r') (h : r.ledger.Disciplined) :
    r'.ledger.Disciplined :=
  changes_invariant (P := fun r => r.ledger.Disciplined) (fun _ _ => Change.disciplined) hrevision.changes h

theorem Revision.placed {takes : Bool} (hrevision : Revision declared scope r takes r') (h : r.store.Placed) :
    r'.store.Placed :=
  changes_invariant (P := fun r => r.store.Placed) (fun _ _ => Change.placed) hrevision.changes h

end Registry

namespace Session

/-- Whatever the verdict, a step is a sequence of small changes. -/
theorem step_changes (s : Session) (op : Operation) :
    ReflTransGen (Registry.Change (s.Declares op)) s.registry (s.step op).2.registry :=
  (s.step_revisions op).changes

/-- What revisions in the innermost scope keep is kept by every operation. -/
theorem apply_invariant {s : Session} {P : Registry → Prop}
    (hrevision : ∀ takes r r', Registry.Revision (fun _ => True) s.currentScope r takes r' → r.ledger.Disciplined →
      P r → P r')
    (hledger : s.ledger.Disciplined) (op : Operation) (h : P s.registry) : P (s.apply op).2.registry := by
  have hrevisions : Registry.Revisions (fun _ => True) s.currentScope 1 s.registry (s.apply op).2.registry :=
    apply_revisions op fun _ _ _ _ _ => trivial
  have hboth := hrevisions.invariant (P := fun r => r.ledger.Disciplined ∧ P r)
    (fun takes r r' hnext hr => ⟨hnext.disciplined hr.1, hrevision takes r r' hnext hr.1 hr.2⟩) ⟨hledger, h⟩
  exact hboth.2

end Session

end BorrowChecker
