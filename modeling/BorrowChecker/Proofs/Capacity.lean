import BorrowChecker.Proofs.Equivariance
import BorrowChecker.Proofs.Turnover

/-!
# Numbers in use

Declarations and loans are numbered from two counters that start at zero. Of the revisions that an operation makes, one at
most takes numbers, so a step takes no more than one from each counter (`step_uses`), and all numbers are below the count
of operations (`Reachable.uses`). A session that has been used for fewer than `2 ^ 32` operations may therefore keep its
numbers in words of 32 bits: no counter runs over, and words compare as the numbers do (`words_compare_as_numbers`).
-/

namespace BorrowChecker

namespace Store

variable {store store' : Store} {p : Place}

/-- Only a variable that starts its life is numbered. -/
theorem nextOrder_declare_le {request : DeclareRequest} (h : store.declare p request = .ok store') :
    store'.nextOrder ≤ store.nextOrder + 1 := by
  rcases declare_eq_ok_iff.mp h with ⟨-, hvar⟩ | ⟨-, hpart⟩
  · obtain ⟨-, rfl⟩ := declareVar_eq_ok_iff.mp hvar
    exact Nat.le_refl _
  · obtain ⟨-, -, -, rfl⟩ := reinitialise_eq_ok_iff.mp hpart
    exact Nat.le_succ _

theorem nextOrder_retire (store : Store) (p : Place) : (store.retire p).nextOrder = store.nextOrder := by
  rw [retire]
  split <;> rfl

theorem Stores.nextOrder_le {scope : ScopeId} {request : LoanRequest} (h : store.Stores scope request store') :
    store'.nextOrder ≤ store.nextOrder + 1 := by
  cases h with
  | part _ _ => exact Nat.le_succ _
  | assign _ hassign =>
    obtain ⟨-, rfl⟩ := assignHolder_eq_ok_iff.mp hassign
    exact Nat.le_succ _
  | declare _ _ _ hstore => exact nextOrder_declare_le hstore

end Store

theorem Ledger.nextId_borrow {ledger ledger' : Ledger} {request : LoanRequest} {nesting : Nesting} {id : LoanId}
    (h : ledger.borrow request nesting = .ok (id, ledger')) : ledger'.nextId = ledger.nextId + 1 := by
  obtain ⟨-, -, -, rfl⟩ := borrow_eq_ok_iff.mp h
  rfl

namespace Registry

/-- On the way from the first registry to the second, no more than `n` numbers are taken from either counter. -/
structure Uses (n : Nat) (r r' : Registry) : Prop where
  orders : r'.store.nextOrder ≤ r.store.nextOrder + n
  ids : r'.ledger.nextId ≤ r.ledger.nextId + n

variable {m n : Nat} {r r' r'' : Registry}

theorem Uses.trans (h : Uses m r r') (h' : Uses n r' r'') : Uses (m + n) r r'' where
  orders := by
    have hbefore := h.orders
    have hafter := h'.orders
    omega
  ids := by
    have hbefore := h.ids
    have hafter := h'.ids
    omega

theorem uses_withdraw (r : Registry) (p : Place) : Uses 0 r (r.withdraw p) where
  orders := Nat.le_of_eq (Store.nextOrder_retire _ p)
  ids := by
    rw [withdraw, ledger_retire, releaseHeldBy, Ledger.releaseHeldBy, Ledger.snd_releaseWhere]
    exact Nat.le_refl _

theorem uses_bury (r : Registry) (p : Place) : Uses 0 r (r.bury p).2 := by
  obtain ⟨kept, -, hreleased⟩ := r.ledger.releaseEach_frame (r.ledger.lentIds p)
  have hgone : Uses 0 r (r.releaseEach (r.ledger.lentIds p)) := by
    rw [releaseEach, hreleased]
    exact ⟨Nat.le_refl _, Nat.le_refl _⟩
  exact hgone.trans (uses_withdraw _ p)

/-- A revision takes one number from each counter at most, and none if it is not flagged. -/
theorem Revision.uses {declared : Place → Prop} {scope : ScopeId} {takes : Bool}
    (h : Revision declared scope r takes r') : Uses takes.toNat r r' := by
  cases h with
  | declare _ _ hstore => exact ⟨Store.nextOrder_declare_le hstore, Nat.le_succ _⟩
  | rebind _ _ _ hstore => exact ⟨Store.nextOrder_declare_le hstore, Nat.le_succ _⟩
  | describe _ hstore =>
    obtain ⟨-, rfl⟩ := Store.registerFacts_eq_ok_iff.mp hstore
    exact ⟨Nat.le_refl _, Nat.le_refl _⟩
  | withdraw _ _ => exact uses_withdraw _ _
  | bury _ => exact uses_bury _ _
  | lend _ hledger hstores _ => exact ⟨hstores.nextOrder_le, Nat.le_of_eq (Ledger.nextId_borrow hledger)⟩
  | revoke _ hledger =>
    -- the number of a loan that is taken back is not given again
    have hnumbered := Ledger.nextId_borrow hledger
    exact ⟨Nat.le_succ _, Nat.le_of_eq hnumbered⟩
  | release gone =>
    rw [Ledger.snd_releaseWhere]
    exact ⟨Nat.le_refl _, Nat.le_refl _⟩
  | refuse | decline | cut | discard => exact ⟨Nat.le_refl _, Nat.le_refl _⟩

theorem Revisions.uses {declared : Place → Prop} {scope : ScopeId} (h : Revisions declared scope n r r') :
    Uses n r r' := by
  induction h with
  | none => exact ⟨Nat.le_add_right _ _, Nat.le_add_right _ _⟩
  | quiet hfirst _ ih =>
    have hboth := hfirst.uses.trans ih
    rwa [Bool.toNat_false, Nat.zero_add] at hboth
  | @taking n _ _ _ hfirst _ ih =>
    have hboth := hfirst.uses.trans ih
    rwa [Bool.toNat_true, Nat.add_comm] at hboth

end Registry

namespace Session

variable {config : Config} {s : Session}

/-- Whatever the verdict, a step numbers one declaration and one loan at most. -/
theorem step_uses (s : Session) (op : Operation) : s.registry.Uses 1 (s.step op).2.registry := (s.step_revisions op).uses

theorem Reachable.uses (h : Reachable config s) : ({} : Registry).Uses s.next s.registry := by
  rw [Reachable] at h
  induction h with
  | refl => exact ⟨Nat.le_refl _, Nat.le_refl _⟩
  | @step t op _ _ ih =>
    rw [next_step]
    exact ih.trans (t.step_uses op)
  | paired ops _ ih => exact ih

/-- **Words compare as numbers.** While a session has been used for fewer than `2 ^ 32` operations, neither counter has run
over a word of 32 bits, and the words of two declarations, or of two loans, compare as their numbers do. -/
theorem Reachable.words_compare_as_numbers (h : Reachable config s) (hfew : s.next < UInt32.size) :
    (s.store.nextOrder < UInt32.size ∧ s.ledger.nextId < UInt32.size) ∧
    (∀ a ∈ s.store.decls, ∀ b ∈ s.store.decls, UInt32.ofNat a.order < UInt32.ofNat b.order ↔ a.order < b.order) ∧
    (∀ a ∈ s.ledger.loans, ∀ b ∈ s.ledger.loans,
      UInt32.ofNat a.id.number < UInt32.ofNat b.id.number ↔ a.id.number < b.id.number) := by
  have horders : s.store.nextOrder ≤ s.next := h.uses.orders.trans_eq (Nat.zero_add _)
  have hids : s.ledger.nextId ≤ s.next := h.uses.ids.trans_eq (Nat.zero_add _)
  have hdecl : ∀ decl ∈ s.store.decls, decl.order < UInt32.size := fun decl hmem =>
    (h.ordered.bounded decl hmem).trans (horders.trans_lt hfew)
  have hloan : ∀ loan ∈ s.ledger.loans, loan.id.number < UInt32.size := fun loan hmem =>
    (h.sound.disciplined.bounded loan hmem).trans (hids.trans_lt hfew)
  refine ⟨⟨horders.trans_lt hfew, hids.trans_lt hfew⟩, fun a ha b hb => ?_, fun a ha b hb => ?_⟩
  · exact UInt32.ofNat_lt_iff_lt (hdecl a ha) (hdecl b hb)
  · exact UInt32.ofNat_lt_iff_lt (hloan a ha) (hloan b hb)

end Session

end BorrowChecker
