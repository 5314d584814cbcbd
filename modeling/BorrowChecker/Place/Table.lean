import BorrowChecker.Place.Basic

/-!
# Numbered places

A table numbers the places that a session has come across, from zero on and in order of first use. A place keeps
its number for ever.
-/

namespace BorrowChecker

/-- The distinct places seen so far; a place's number is its position. -/
structure PlaceTable where
  places : List Place := []
deriving DecidableEq, Repr, Inhabited

namespace PlaceTable

def size (table : PlaceTable) : Nat := table.places.length

def isEmpty (table : PlaceTable) : Bool := table.places.isEmpty

def id? (table : PlaceTable) (p : Place) : Option Nat := table.places.idxOf? p

def get? (table : PlaceTable) (n : Nat) : Option Place := table.places[n]?

/-- The number of a place, and the table that has it. A place that is already there changes nothing. -/
def intern (table : PlaceTable) (p : Place) : Nat × PlaceTable :=
  match table.id? p with
  | some n => (n, table)
  | none => (table.size, ⟨table.places ++ [p]⟩)

def insert (table : PlaceTable) (p : Place) : PlaceTable := (table.intern p).2

/-! ## Numbers are stable -/

theorem get?_of_id? {table : PlaceTable} {p : Place} {n : Nat} (h : table.id? p = some n) :
    table.get? n = some p := by
  rw [id?, List.idxOf?, List.findIdx?_eq_some_iff_getElem] at h
  obtain ⟨hlt, heq, _⟩ := h
  rw [get?, List.getElem?_eq_getElem hlt, eq_of_beq heq]

theorem id?_eq_none_iff {table : PlaceTable} {p : Place} : table.id? p = none ↔ p ∉ table.places := by
  simp [id?]

/-- A place is found under the number it was given. -/
theorem get?_intern (table : PlaceTable) (p : Place) :
    (table.intern p).2.get? (table.intern p).1 = some p := by
  rw [intern]
  split
  next n hn => exact get?_of_id? hn
  next => simp [get?, size]

theorem mem_places_insert {table : PlaceTable} {p q : Place} :
    q ∈ (table.insert p).places ↔ q = p ∨ q ∈ table.places := by
  rw [insert, intern]
  split
  next n hn =>
    have hp : p ∈ table.places := List.mem_of_getElem? (get?_of_id? hn)
    exact ⟨Or.inr, fun h => h.elim (fun e => e ▸ hp) id⟩
  next => simp [or_comm]

/-- A place keeps its number as the table grows. -/
theorem get?_insert_of_some {table : PlaceTable} {p q : Place} {n : Nat} (h : table.get? n = some q) :
    (table.insert p).get? n = some q := by
  rw [insert, intern]
  split
  next => exact h
  next => exact (List.getElem?_append_left (List.getElem?_eq_some_iff.mp h).1).trans h

end PlaceTable

end BorrowChecker
