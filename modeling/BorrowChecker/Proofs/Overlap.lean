import BorrowChecker.Place.Overlap
import Mathlib.Data.List.Induction
import Mathlib.Data.List.Zip

/-!
# Overlap as a relation

Overlap is symmetric, and a bare variable overlaps exactly the places that start at it. Being on the way to a place
is read off the variable and the path, and what overlaps a place overlaps all that is on the way to it.

A place on the way to another overlaps it just as it overlaps itself. That it overlaps itself takes that every window it
goes through has room for an element (`overlaps_self`). A window that ends where it starts, or before, is disjoint from
itself, and an array that is split at 0 has such a half (`empty_half_apart_from_itself`).
-/

namespace BorrowChecker

namespace Projection

/-- Whether a window leaves an element to choose. A step that is no window does. -/
def hasRoom : Projection → Bool
  | .subslice lo (some hi) => lo < hi
  | _ => true

theorem disjoint_self (e : Projection) : e.disjoint e = !e.hasRoom := by
  cases e with
  | field name => exact bne_self_eq_false name
  | index => rfl
  | deref => rfl
  | subslice lo hi =>
    cases hi with
    | none => rfl
    | some hi => simp [disjoint, hasRoom, ← decide_not]

theorem zip_append_of_length_le {path other : List Projection} (h : other.length ≤ path.length)
    (rest : List Projection) : (path ++ rest).zip other = path.zip other := by
  induction path generalizing other with
  | nil => rw [List.length_eq_zero_iff.mp (Nat.le_zero.mp h), List.zip_nil_right, List.zip_nil_right]
  | cons e path ih =>
    cases other with
    | nil => rfl
    | cons f other => rw [List.cons_append, List.zip_cons_cons, List.zip_cons_cons, ih (Nat.le_of_succ_le_succ h)]

/-- The steps that a path is compared by are compared for every path that goes on from it. -/
theorem zip_prefix_append (path rest other : List Projection) : path.zip other <+: (path ++ rest).zip other := by
  induction path generalizing other with
  | nil => exact List.nil_prefix
  | cons e path ih =>
    cases other with
    | nil => exact List.nil_prefix
    | cons f other => exact List.prefix_cons_inj (e, f) |>.mpr (ih other)

end Projection

namespace Place

/-- Every place is a variable or a step out of another place. -/
@[elab_as_elim]
theorem stepInduction {motive : Place → Prop} (var : ∀ x, motive (.var x))
    (project : ∀ p e, motive p → motive (p.project e)) (p : Place) : motive p := by
  obtain ⟨root, path⟩ := p
  induction path using List.reverseRecOn with
  | nil => exact var root
  | append_singleton path e ih => exact project ⟨root, path⟩ e ih

theorem overlaps_comm (p q : Place) : p.overlaps q = q.overlaps p := by
  rw [overlaps, overlaps, BEq.comm]
  congr 1
  -- the pairs of steps are the same ones, turned around
  rw [← List.zip_swap, List.all_map]
  congr 1
  funext pair
  exact congrArg (!·) (Projection.disjoint_comm pair.2 pair.1)

/-! ## Bare variables -/

theorem isVar_iff {p : Place} : p.isVar = true ↔ p.path = [] := List.isEmpty_iff

theorem eq_var {p : Place} (h : p.isVar = true) : p = .var p.root := by
  rw [var, ← isVar_iff.mp h]

theorem overlaps_of_isVar {p : Place} (h : p.isVar = true) (q : Place) : p.overlaps q = (p.root == q.root) := by
  rw [overlaps, isVar_iff.mp h, List.zip_nil_left, List.all_nil, Bool.and_true]

theorem isPrefixOf_of_isVar {p q : Place} (h : p.isVar = true) (hroot : p.root = q.root) : p.isPrefixOf q = true := by
  rw [isPrefixOf_iff, isVar_iff.mp h]
  exact ⟨hroot, List.nil_prefix⟩

theorem root_eq_of_isPrefixOf {p q : Place} (h : p.isPrefixOf q = true) : p.root = q.root :=
  (isPrefixOf_iff.mp h).1

/-! ## Along a path -/

/-- A place on the way to another overlaps it just as it overlaps itself. Only a window without elements does not. -/
theorem overlaps_of_isPrefixOf {p q : Place} (h : p.isPrefixOf q = true) : q.overlaps p = p.overlaps p := by
  obtain ⟨hroot, rest, hpath⟩ := isPrefixOf_iff.mp h
  rw [overlaps, overlaps, ← hpath, Projection.zip_append_of_length_le (Nat.le_refl _), hroot]

/-- What overlaps a part overlaps the whole. -/
theorem overlaps_whole_of_part {p q r : Place} (h : p.isPrefixOf q = true) (hpart : r.overlaps q = true) :
    r.overlaps p = true := by
  obtain ⟨hroot, rest, hpath⟩ := isPrefixOf_iff.mp h
  rw [overlaps_comm, overlaps, Bool.and_eq_true, ← hpath, List.all_eq_true] at hpart
  rw [overlaps_comm, overlaps, Bool.and_eq_true, hroot, List.all_eq_true]
  exact ⟨hpart.1, fun pair hpair => hpart.2 pair ((Projection.zip_prefix_append p.path rest r.path).subset hpair)⟩

theorem overlaps_self (p : Place) : p.overlaps p = p.path.all Projection.hasRoom := by
  rw [overlaps, beq_self_eq_true, Bool.true_and, List.zip_eq_zipWith, List.zipWith_self, List.all_map]
  congr 1
  funext e
  change (!e.disjoint e) = e.hasRoom
  rw [Projection.disjoint_self, Bool.not_not]

/-- **Overlap is symmetric, and places on the way to each other overlap** unless the shorter one goes through a window
without elements. This covers a place and itself, and a place and everything that goes on from it. -/
theorem overlaps_symm_and_along_path (p q : Place) :
    p.overlaps q = q.overlaps p ∧ (p.isPrefixOf q = true → p.overlaps q = p.path.all Projection.hasRoom) := by
  refine ⟨overlaps_comm p q, fun h => ?_⟩
  rw [overlaps_comm, overlaps_of_isPrefixOf h, overlaps_self]

/-- A field of the elements in a window with room, and an element behind a pointer in that field. -/
theorem window_with_room_overlaps_inside :
    let p : Place := ⟨⟨0⟩, [.subslice 2 (some 3), .index, .field ⟨1⟩]⟩
    let q : Place := ⟨⟨0⟩, [.subslice 2 (some 3), .index, .field ⟨1⟩, .deref, .index]⟩
    p.isPrefixOf q = true ∧ p.overlaps q = true := by
  intro p q
  have hinside : p.isPrefixOf q = true := by decide
  exact ⟨hinside, ((overlaps_symm_and_along_path p q).2 hinside).trans (by decide)⟩

/-- The first half of an array that is split at 0 overlaps neither itself nor what goes on from it, and no more does a
window that ends before it starts. -/
theorem empty_half_apart_from_itself :
    let half := ((Place.var ⟨0⟩).halves 0).1
    let inverted : Place := ⟨⟨0⟩, [.subslice 5 (some 3)]⟩
    half.isPrefixOf half = true ∧ half.overlaps half = false ∧
    half.isPrefixOf (half.project .index) = true ∧ half.overlaps (half.project .index) = false ∧
    inverted.isPrefixOf inverted = true ∧ inverted.overlaps inverted = false := by
  decide

end Place

end BorrowChecker
