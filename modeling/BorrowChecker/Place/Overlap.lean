import BorrowChecker.Place.Basic

/-!
# Overlap of places

Two places overlap when they may name common storage. The answer errs on the side of overlap: only different
fields of one record and windows of one array that do not meet are told apart.
-/

namespace BorrowChecker

namespace Projection

/-- Two projections out of the same place that certainly reach different storage. -/
def disjoint : Projection → Projection → Bool
  | .field a, .field b => a != b
  | .subslice a b, .subslice c d => b.any (· ≤ c) || d.any (· ≤ a)
  | _, _ => false

theorem disjoint_comm (e f : Projection) : e.disjoint f = f.disjoint e := by
  cases e <;> cases f <;> simp only [disjoint, bne_comm, Bool.or_comm]

end Projection

namespace Place

/-- Whether `p` is `q` or lies on the way to `q`. -/
def isPrefixOf (p q : Place) : Bool :=
  p.root == q.root && p.path.isPrefixOf q.path

/-- Whether two places may name common storage: they start at the same variable and no step of theirs, compared
position by position, leads to different parts. -/
def overlaps (p q : Place) : Bool :=
  p.root == q.root && (p.path.zip q.path).all fun (e, f) => !e.disjoint f

theorem isPrefixOf_iff {p q : Place} : p.isPrefixOf q = true ↔ p.root = q.root ∧ p.path <+: q.path := by
  simp [isPrefixOf]

theorem isPrefixOf_refl (p : Place) : p.isPrefixOf p = true :=
  isPrefixOf_iff.mpr ⟨rfl, List.prefix_refl _⟩

theorem isPrefixOf_trans {p q r : Place} (hpq : p.isPrefixOf q = true) (hqr : q.isPrefixOf r = true) :
    p.isPrefixOf r = true := by
  obtain ⟨hroot, hpath⟩ := isPrefixOf_iff.mp hpq
  obtain ⟨hroot', hpath'⟩ := isPrefixOf_iff.mp hqr
  exact isPrefixOf_iff.mpr ⟨hroot.trans hroot', hpath.trans hpath'⟩

theorem root_of_overlaps {p q : Place} (h : p.overlaps q = true) : p.root = q.root := by
  simp only [overlaps, Bool.and_eq_true, beq_iff_eq] at h
  exact h.1

end Place

end BorrowChecker
