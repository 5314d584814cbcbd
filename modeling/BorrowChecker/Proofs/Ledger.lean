import BorrowChecker.Loan.Ledger
import BorrowChecker.Proofs.Overlap
import Mathlib.Data.List.Nodup

/-!
# The discipline of the ledger

A ledger is disciplined if its loans are numbered in the order in which they stand, below the number of the next
one, and loans on overlapping storage are compatible. Lending keeps the discipline because it looks for an obstacle
first; loans that leave or change hands keep it because it speaks of pairs of loans and not of their holders.
-/

namespace BorrowChecker

/-! ## Sets of permissions, bit by bit -/

theorem PermSet.subset_iff_getLsbD {a b : PermSet} :
    a ⊆ b ↔ ∀ i, a.bits.getLsbD i = true → b.bits.getLsbD i = true := by
  rw [subset_def]
  constructor
  · intro h i hi
    have hbit := congrArg (·.getLsbD i) h
    simp only [BitVec.getLsbD_and, hi, Bool.and_true] at hbit
    exact hbit
  · intro h
    apply BitVec.eq_of_getLsbD_eq
    intro i _
    rw [BitVec.getLsbD_and]
    cases hi : a.bits.getLsbD i with
    | false => exact Bool.and_false _
    | true => rw [h i hi, Bool.and_true]

namespace PermSet

variable {a b c : PermSet}

/-- The set has exactly one permission. -/
def IsSingle (a : PermSet) : Prop := ∃ i < 8, a.bits = BitVec.twoPow 8 i

theorem isSingle_read : read.IsSingle := ⟨0, by decide, rfl⟩

theorem isSingle_write : write.IsSingle := ⟨1, by decide, rfl⟩

theorem isSingle_own : own.IsSingle := ⟨2, by decide, rfl⟩

theorem inter_comm (a b : PermSet) : a ∩ b = b ∩ a := PermSet.ext (BitVec.and_comm _ _)

theorem inter_eq_empty_iff : a ∩ b = ∅ ↔ a.bits &&& b.bits = 0#8 := PermSet.ext_iff

/-- One permission is either in a set or has nothing in common with it. -/
theorem IsSingle.inter_eq_empty_iff (h : b.IsSingle) : a ∩ b = ∅ ↔ ¬ b ⊆ a := by
  obtain ⟨i, hi, hb⟩ := h
  rw [PermSet.inter_eq_empty_iff, subset_def, hb, BitVec.and_twoPow]
  have hne : BitVec.twoPow 8 i ≠ 0#8 := by
    intro hzero
    have hbit := congrArg (·.getLsbD i) hzero
    simp [hi] at hbit
  cases a.bits.getLsbD i
  · simp [hne.symm]
  · simp [hne]

theorem inter_union_eq_empty_iff : a ∩ (b ∪ c) = ∅ ↔ a ∩ b = ∅ ∧ a ∩ c = ∅ := by
  rw [inter_eq_empty_iff, inter_eq_empty_iff, inter_eq_empty_iff, bits_union, BitVec.and_or_distrib_left,
    BitVec.or_eq_zero_iff]

/-- What is needed is left if all of it is held and none of it is taken away. -/
theorem subset_sdiff_iff : a ⊆ b \ c ↔ a ⊆ b ∧ a ∩ c = ∅ := by
  have hbits : ∀ {x y : PermSet}, x ⊆ y ↔ x.bits &&& ~~~y.bits = 0#8 :=
    missing_eq_empty_iff.symm.trans PermSet.ext_iff
  rw [hbits, hbits, inter_eq_empty_iff, bits_sdiff, BitVec.not_and, BitVec.not_not, BitVec.and_or_distrib_left,
    BitVec.or_eq_zero_iff]

theorem subset_refl (a : PermSet) : a ⊆ a := by
  rw [subset_def, BitVec.and_self]

theorem empty_subset (a : PermSet) : ∅ ⊆ a := by
  rw [subset_def, bits_empty, BitVec.and_zero]

/-- What is left after something has been taken away has nothing in common with it. -/
theorem sdiff_inter_self (a b : PermSet) : (a \ b) ∩ b = ∅ :=
  (subset_sdiff_iff.mp (subset_refl (a \ b))).2

theorem union_subset (ha : a ⊆ c) (hb : b ⊆ c) : a ∪ b ⊆ c := by
  rw [subset_def] at ha hb ⊢
  rw [bits_union, BitVec.and_or_distrib_left, ha, hb]

theorem IsSingle.subset_missing_iff (h : a.IsSingle) {held needs : PermSet} :
    a ⊆ held.missing needs ↔ a ⊆ needs ∧ ¬ a ⊆ held := by
  rw [missing, subset_sdiff_iff, inter_comm, h.inter_eq_empty_iff]

end PermSet

/-! ## Kinds of loans -/

theorem BorrowKind.compatible_iff {a b : BorrowKind} : a.compatible b = true ↔ a = .shared ∧ b = .shared := by
  cases a <;> cases b <;> decide

/-- A loan leaves alone what is only read if it is shared, and nothing that is written or owned. -/
theorem BorrowKind.inter_suspends_eq_empty_iff {kind : BorrowKind} {needs : PermSet} :
    needs ∩ kind.suspends = ∅ ↔ (.read ⊆ needs → kind = .shared) ∧ ¬ .write ⊆ needs ∧ ¬ .own ⊆ needs := by
  cases kind with
  | shared =>
    rw [suspends, PermSet.writeOwn, PermSet.inter_union_eq_empty_iff, PermSet.isSingle_write.inter_eq_empty_iff,
      PermSet.isSingle_own.inter_eq_empty_iff]
    simp
  | exclusive =>
    rw [suspends, PermSet.all, PermSet.inter_union_eq_empty_iff, PermSet.inter_union_eq_empty_iff,
      PermSet.isSingle_read.inter_eq_empty_iff, PermSet.isSingle_write.inter_eq_empty_iff,
      PermSet.isSingle_own.inter_eq_empty_iff]
    simp [and_assoc]

namespace Ledger

/-! ## Loans on a place -/

theorem overlapping_eq_nil_iff {ledger : Ledger} {p : Place} :
    ledger.overlapping p = [] ↔ ∀ loan ∈ ledger.loans, loan.source.overlaps p = false := by
  simp [overlapping]

theorem obstacle?_eq_none_iff {ledger : Ledger} {p : Place} {kind : BorrowKind} :
    ledger.obstacle? p kind = none ↔
      ∀ loan ∈ ledger.loans, loan.source.overlaps p = true → loan.kind.compatible kind = true := by
  simp [obstacle?, overlapping]

/-- What is needed on a place is not suspended if no loan on the place suspends any of it. -/
theorem inter_suspended_eq_empty_iff {ledger : Ledger} {p : Place} {needs : PermSet} :
    needs ∩ ledger.suspended p = ∅ ↔ ∀ loan ∈ ledger.overlapping p, needs ∩ loan.kind.suspends = ∅ := by
  have hfold : ∀ (loans : List Loan) (perms : PermSet),
      needs ∩ loans.foldl (fun perms loan => perms ∪ loan.kind.suspends) perms = ∅ ↔
        needs ∩ perms = ∅ ∧ ∀ loan ∈ loans, needs ∩ loan.kind.suspends = ∅ := by
    intro loans
    induction loans with
    | nil => simp
    | cons loan loans ih =>
      intro perms
      rw [List.foldl_cons, ih, PermSet.inter_union_eq_empty_iff, List.forall_mem_cons, and_assoc]
  have hempty : needs ∩ (∅ : PermSet) = ∅ := PermSet.inter_eq_empty_iff.mpr BitVec.and_zero
  rw [suspended, hfold]
  exact and_iff_right hempty

/-- What may be done with a place allows what is needed if its loans are all shared when it is read, and if there are
none when it is written or owned. -/
theorem subset_sdiff_suspended_iff {ledger : Ledger} {p : Place} {perms needs : PermSet} :
    needs ⊆ perms \ ledger.suspended p ↔
      needs ⊆ perms ∧ (.read ⊆ needs → ∀ loan ∈ ledger.overlapping p, loan.kind = .shared) ∧
      (.write ⊆ needs ∨ .own ⊆ needs → ledger.overlapping p = []) := by
  rw [PermSet.subset_sdiff_iff, inter_suspended_eq_empty_iff]
  simp only [BorrowKind.inter_suspends_eq_empty_iff]
  refine and_congr_right fun _ => ⟨fun h => ⟨fun hread loan hloan => (h loan hloan).1 hread, fun hneeds => ?_⟩, ?_⟩
  · rw [List.eq_nil_iff_forall_not_mem]
    intro loan hloan
    exact hneeds.elim (h loan hloan).2.1 (h loan hloan).2.2
  · rintro ⟨hread, hnone⟩ loan hloan
    have hlent : ledger.overlapping p ≠ [] := List.ne_nil_of_mem hloan
    exact ⟨fun h => hread h loan hloan, fun h => hlent (hnone (Or.inl h)), fun h => hlent (hnone (Or.inr h))⟩

/-! ## Lending and releasing -/

/-- A loan is entered at the end and under the next number if nothing stands in its way. -/
theorem borrow_eq_ok_iff {ledger ledger' : Ledger} {request : LoanRequest} {nesting : Nesting} {id : LoanId} :
    ledger.borrow request nesting = .ok (id, ledger') ↔
      ledger.obstacle? request.source request.kind = none ∧
      (ledger.parents request.source).find? (!nesting.nests request.stop ·.stop) = none ∧
      id = ⟨ledger.nextId⟩ ∧ ledger' = ⟨ledger.loans ++ [{ request with id }], ledger.nextId + 1⟩ := by
  rw [borrow]
  cases ledger.obstacle? request.source request.kind with
  | some existing => simp
  | none =>
    cases (ledger.parents request.source).find? (!nesting.nests request.stop ·.stop) with
    | some parent => simp
    | none =>
      simp only [Except.ok.injEq, Prod.mk.injEq, true_and]
      constructor
      · rintro ⟨rfl, rfl⟩
        exact ⟨rfl, rfl⟩
      · rintro ⟨rfl, rfl⟩
        exact ⟨rfl, rfl⟩

theorem snd_releaseWhere (ledger : Ledger) (gone : Loan → Bool) :
    (ledger.releaseWhere gone).2 = { ledger with loans := ledger.loans.filter (!gone ·) } := by
  rw [releaseWhere_eq]

/-- If no two loans have the same number, the numbers of some loans pick no others. -/
theorem contains_ids_filter {loans : List Loan} (h : (loans.map (·.id)).Nodup) (pick : Loan → Bool) {loan : Loan}
    (hloan : loan ∈ loans) : ((loans.filter pick).map (·.id)).contains loan.id = pick loan := by
  rw [Bool.eq_iff_iff, List.contains_iff_mem, List.mem_map]
  constructor
  · rintro ⟨other, hother, hid⟩
    obtain ⟨hmem, hpicked⟩ := List.mem_filter.mp hother
    rwa [List.inj_on_of_nodup_map h hmem hloan hid] at hpicked
  · intro hpicked
    exact ⟨loan, List.mem_filter.mpr ⟨hloan, hpicked⟩, rfl⟩

theorem contains_heldIds {ledger : Ledger} (h : (ledger.loans.map (·.id)).Nodup) (holder : Place) {loan : Loan}
    (hloan : loan ∈ ledger.loans) : (ledger.heldIds holder).contains loan.id = holder.isPrefixOf loan.holder :=
  contains_ids_filter h (holder.isPrefixOf ·.holder) hloan

theorem releaseHeldBy_eq {ledger : Ledger} (h : (ledger.loans.map (·.id)).Nodup) (holder : Place) :
    ledger.releaseHeldBy holder = ledger.releaseWhere (holder.isPrefixOf ·.holder) := by
  have hpicked : ∀ loan ∈ ledger.loans, (ledger.heldIds holder).contains loan.id = holder.isPrefixOf loan.holder :=
    fun loan hloan => contains_heldIds h holder hloan
  have hspared : ∀ loan ∈ ledger.loans,
      (!(ledger.heldIds holder).contains loan.id) = !holder.isPrefixOf loan.holder :=
    fun loan hloan => congrArg (!·) (hpicked loan hloan)
  rw [releaseHeldBy, releaseWhere_eq, releaseWhere_eq, List.filter_congr hpicked, List.filter_congr hspared]

/-- Whatever the numbers, no loan is left that is held there. -/
theorem not_held_of_mem_releaseHeldBy {ledger : Ledger} {holder : Place} {loan : Loan}
    (h : loan ∈ (ledger.releaseHeldBy holder).2.loans) :
    loan ∈ ledger.loans ∧ holder.isPrefixOf loan.holder = false := by
  rw [releaseHeldBy, snd_releaseWhere, List.mem_filter, Bool.not_eq_true', List.contains_eq_mem,
    decide_eq_false_iff_not] at h
  refine ⟨h.1, Bool.eq_false_iff.mpr fun hheld => h.2 ?_⟩
  exact List.mem_map_of_mem (List.mem_filter.mpr ⟨h.1, hheld⟩)

theorem eraseP_eq_filter {loans : List Loan} (h : (loans.map (·.id)).Nodup) (id : LoanId) :
    loans.eraseP (·.id == id) = loans.filter (!·.id == id) := by
  induction loans with
  | nil => rfl
  | cons loan loans ih =>
    obtain ⟨hlater, hrest⟩ := List.nodup_cons.mp h
    by_cases hid : loan.id = id
    · -- no loan after this one has its number
      have hothers : loans.filter (!·.id == id) = loans := by
        rw [List.filter_eq_self]
        intro other hother
        rw [Bool.not_eq_true', beq_eq_false_iff_ne]
        exact fun hsame => hlater (List.mem_map.mpr ⟨other, hother, hsame.trans hid.symm⟩)
      simp [hid, hothers]
    · simp [hid, ih hrest]

/-- Releasing loans one after the other takes loans out and does nothing else. -/
theorem releaseEach_frame (ledger : Ledger) (ids : List LoanId) :
    ∃ kept, kept.Sublist ledger.loans ∧ ledger.releaseEach ids = { ledger with loans := kept } := by
  induction ids generalizing ledger with
  | nil => exact ⟨ledger.loans, List.Sublist.refl _, rfl⟩
  | cons id ids ih =>
    obtain ⟨kept, hsub, hrest⟩ := ih (ledger.release id).2
    exact ⟨kept, hsub.trans List.eraseP_sublist, hrest⟩

theorem loans_releaseEach_sublist (ledger : Ledger) (ids : List LoanId) :
    (ledger.releaseEach ids).loans.Sublist ledger.loans := by
  obtain ⟨kept, hsub, hrest⟩ := ledger.releaseEach_frame ids
  rw [hrest]
  exact hsub

/-- If no two loans have the same number, each number stands for the loan that it was listed for. -/
theorem loans_releaseEach {ledger : Ledger} (h : (ledger.loans.map (·.id)).Nodup) (ids : List LoanId) :
    (ledger.releaseEach ids).loans = ledger.loans.filter (!ids.contains ·.id) := by
  induction ids generalizing ledger with
  | nil => simp [releaseEach]
  | cons id ids ih =>
    have hreleased : (ledger.release id).2.loans = ledger.loans.filter (!·.id == id) := eraseP_eq_filter h id
    have hnodup : ((ledger.release id).2.loans.map (·.id)).Nodup := h.sublist (List.eraseP_sublist.map _)
    rw [releaseEach, List.foldl_cons, ← releaseEach, ih hnodup, hreleased, List.filter_filter]
    refine List.filter_congr fun loan _ => ?_
    rw [List.contains_cons, Bool.not_or, Bool.and_comm]

/-- A loan that changes hands keeps everything but its holder. -/
theorem exists_of_mem_transfer {ledger : Ledger} {source target : Place} {loan : Loan}
    (h : loan ∈ (ledger.transfer source target).2.loans) :
    ∃ old ∈ ledger.loans, ∃ holder, loan = { old with holder } := by
  obtain ⟨old, hold, rfl⟩ := List.mem_map.mp h
  refine ⟨old, hold, ?_⟩
  split
  · exact ⟨target, rfl⟩
  · exact ⟨old.holder, rfl⟩

theorem overlapping_transfer_eq_nil {ledger : Ledger} {source target p : Place} (h : ledger.overlapping p = []) :
    (ledger.transfer source target).2.overlapping p = [] := by
  rw [overlapping_eq_nil_iff] at h ⊢
  intro loan hloan
  obtain ⟨old, hold, holder, rfl⟩ := exists_of_mem_transfer hloan
  exact h old hold

/-! ## The discipline -/

structure Disciplined (ledger : Ledger) : Prop where
  ordered : ledger.loans.Pairwise fun a b => a.id.number < b.id.number
  bounded : ∀ loan ∈ ledger.loans, loan.id.number < ledger.nextId
  compatible : ledger.loans.Pairwise fun a b => a.source.overlaps b.source = true → a.kind.compatible b.kind = true

theorem disciplined_empty : ({} : Ledger).Disciplined :=
  ⟨List.Pairwise.nil, fun _ h => absurd h List.not_mem_nil, List.Pairwise.nil⟩

namespace Disciplined

variable {ledger : Ledger}

theorem of_sublist (h : ledger.Disciplined) {kept : List Loan} (hsub : kept.Sublist ledger.loans) :
    { ledger with loans := kept }.Disciplined :=
  ⟨h.ordered.sublist hsub, fun loan hloan => h.bounded loan (hsub.subset hloan), h.compatible.sublist hsub⟩

theorem nodup_ids (h : ledger.Disciplined) : (ledger.loans.map (·.id)).Nodup := by
  refine List.pairwise_map.mpr (h.ordered.imp ?_)
  intro a b hlt heq
  rw [heq] at hlt
  exact Nat.lt_irrefl _ hlt

theorem get?_of_mem (h : ledger.Disciplined) {loan : Loan} (hloan : loan ∈ ledger.loans) :
    ledger.get? loan.id = some loan := by
  cases hget : ledger.get? loan.id with
  | none => exact absurd (beq_self_eq_true loan.id) (List.find?_eq_none.mp hget loan hloan)
  | some other =>
    have hid : other.id = loan.id := by simpa using List.find?_some hget
    rw [List.inj_on_of_nodup_map h.nodup_ids (List.mem_of_find?_eq_some hget) hloan hid]

/-- The first loan that lends storage of `p`, looked up by its number. -/
theorem get?_head_lentIds (h : ledger.Disciplined) (p : Place) :
    (ledger.lentIds p).head?.bind ledger.get? = (ledger.overlapping p).head? := by
  rw [lentIds, List.head?_map]
  cases hhead : (ledger.overlapping p).head? with
  | none => rfl
  | some loan => exact h.get?_of_mem (List.mem_of_mem_filter (List.mem_of_head? hhead))

theorem releaseEach (h : ledger.Disciplined) (ids : List LoanId) : (ledger.releaseEach ids).Disciplined := by
  obtain ⟨kept, hsub, hrest⟩ := ledger.releaseEach_frame ids
  rw [hrest]
  exact h.of_sublist hsub

theorem loans_releaseEach_lentIds (h : ledger.Disciplined) (p : Place) :
    (ledger.releaseEach (ledger.lentIds p)).loans = ledger.loans.filter (!·.source.overlaps p) := by
  rw [loans_releaseEach h.nodup_ids]
  refine List.filter_congr fun loan hloan => ?_
  exact congrArg (!·) (contains_ids_filter h.nodup_ids (·.source.overlaps p) hloan)

theorem releaseWhere (h : ledger.Disciplined) (gone : Loan → Bool) : (ledger.releaseWhere gone).2.Disciplined := by
  rw [snd_releaseWhere]
  exact h.of_sublist List.filter_sublist

theorem snd_releaseHeldBy (h : ledger.Disciplined) (holder : Place) :
    (ledger.releaseHeldBy holder).2 = { ledger with loans := ledger.loans.filter (!holder.isPrefixOf ·.holder) } := by
  rw [releaseHeldBy_eq h.nodup_ids, snd_releaseWhere]

theorem transfer (h : ledger.Disciplined) (source target : Place) :
    (ledger.transfer source target).2.Disciplined := by
  refine ⟨?_, ?_, ?_⟩
  · refine List.pairwise_map.mpr (h.ordered.imp ?_)
    intro a b hab
    split <;> split <;> exact hab
  · intro loan hloan
    obtain ⟨old, hold, holder, rfl⟩ := exists_of_mem_transfer hloan
    exact h.bounded old hold
  · refine List.pairwise_map.mpr (h.compatible.imp ?_)
    intro a b hab
    split <;> split <;> exact hab

theorem borrow (h : ledger.Disciplined) {ledger' : Ledger} {request : LoanRequest} {nesting : Nesting} {id : LoanId}
    (hborrow : ledger.borrow request nesting = .ok (id, ledger')) : ledger'.Disciplined := by
  obtain ⟨hobstacle, -, rfl, rfl⟩ := borrow_eq_ok_iff.mp hborrow
  rw [obstacle?_eq_none_iff] at hobstacle
  refine ⟨?_, ?_, ?_⟩
  · refine List.pairwise_append.mpr ⟨h.ordered, List.pairwise_singleton _ _, ?_⟩
    intro a ha b hb
    rw [List.mem_singleton.mp hb]
    exact h.bounded a ha
  · intro loan hloan
    rcases List.mem_append.mp hloan with hloan | hloan
    · exact Nat.lt_succ_of_lt (h.bounded loan hloan)
    · rw [List.mem_singleton.mp hloan]
      exact Nat.lt_succ_self _
  · refine List.pairwise_append.mpr ⟨h.compatible, List.pairwise_singleton _ _, ?_⟩
    intro a ha b hb hoverlap
    rw [List.mem_singleton.mp hb] at hoverlap ⊢
    exact hobstacle a ha hoverlap

/-- No loan in the ledger has the number of the next one. -/
theorem id_ne_next (h : ledger.Disciplined) {loan : Loan} (hloan : loan ∈ ledger.loans) : loan.id ≠ ⟨ledger.nextId⟩ := by
  intro hid
  have hlt := h.bounded loan hloan
  rw [hid] at hlt
  exact Nat.lt_irrefl _ hlt

/-- After a borrow the loans are those from before, which have other numbers, and the new one. -/
theorem mem_of_borrow (h : ledger.Disciplined) {ledger' : Ledger} {request : LoanRequest} {nesting : Nesting}
    {id : LoanId} (hborrow : ledger.borrow request nesting = .ok (id, ledger')) {loan : Loan}
    (hloan : loan ∈ ledger'.loans) : (loan ∈ ledger.loans ∧ loan.id ≠ id) ∨ loan = { request with id } := by
  obtain ⟨-, -, rfl, rfl⟩ := borrow_eq_ok_iff.mp hborrow
  rcases List.mem_append.mp hloan with hold | hnew
  · exact Or.inl ⟨hold, h.id_ne_next hold⟩
  · exact Or.inr (List.mem_singleton.mp hnew)

/-- A loan that is taken back at once leaves the other loans as they were. -/
theorem release_borrow (h : ledger.Disciplined) {ledger' : Ledger} {request : LoanRequest} {nesting : Nesting}
    {id : LoanId} (hborrow : ledger.borrow request nesting = .ok (id, ledger')) :
    (ledger'.release id).2 = { ledger with nextId := ledger.nextId + 1 } := by
  obtain ⟨-, -, rfl, rfl⟩ := borrow_eq_ok_iff.mp hborrow
  -- the loan that goes is the new one
  have hother : ∀ loan ∈ ledger.loans, ¬ (loan.id == (⟨ledger.nextId⟩ : LoanId)) = true := fun loan hloan heq =>
    h.id_ne_next hloan (eq_of_beq heq)
  simp only [release, List.eraseP_append_right _ hother]
  simp

end Disciplined

end Ledger

end BorrowChecker
