/-!
# Symbols and the interner

Names of variables and fields are compared far more often than they are printed, so the checker works on
symbols. An interner hands out one symbol per distinct name, in order of first use, and gives the name back
when a diagnostic is printed.
-/

namespace BorrowChecker

/-- A name by its position among the names of an interner. -/
structure Symbol where
  index : Nat
deriving DecidableEq, Repr, Inhabited

namespace Symbol

/-- Symbols are written down as numbers from one on, so that zero is never a symbol. -/
def number (x : Symbol) : Nat := x.index + 1

/-- Numbers have 32 bits. -/
def numberLimit : Nat := 4294967296

/-- The symbol with a given number, if the number is one. -/
def ofNumber? (n : Nat) : Option Symbol :=
  if 0 < n ∧ n < numberLimit then some ⟨n - 1⟩ else none

theorem number_pos (x : Symbol) : 0 < x.number := Nat.succ_pos _

theorem ofNumber?_number {x : Symbol} (h : x.number < numberLimit) : ofNumber? x.number = some x := by
  rw [ofNumber?, if_pos ⟨x.number_pos, h⟩]
  rfl

theorem number_of_ofNumber? {n : Nat} {x : Symbol} (h : ofNumber? n = some x) :
    x.number = n ∧ n < numberLimit := by
  rw [ofNumber?] at h
  split at h
  · cases h
    simp only [number]
    omega
  · cases h

end Symbol

/-- The distinct names seen so far, in order of first use. -/
structure Interner where
  known : List String := []
deriving DecidableEq, Repr, Inhabited

namespace Interner

/-- The symbol of a name that has been interned. -/
def get? (names : Interner) (name : String) : Option Symbol :=
  (names.known.idxOf? name).map fun i => ⟨i⟩

/-- The symbol of a name, and the interner that knows it. A name that is already known changes nothing. -/
def intern (names : Interner) (name : String) : Symbol × Interner :=
  match names.get? name with
  | some x => (x, names)
  | none => (⟨names.known.length⟩, ⟨names.known ++ [name]⟩)

/-- The name behind a symbol, if this interner issued it. -/
def name? (names : Interner) (x : Symbol) : Option String :=
  names.known[x.index]?

/-- The name behind a symbol for printing; a symbol of another interner has a placeholder. -/
def name (names : Interner) (x : Symbol) : String :=
  (names.name? x).getD "<unknown>"

theorem name?_of_get? {names : Interner} {name : String} {x : Symbol} (h : names.get? name = some x) :
    names.name? x = some name := by
  obtain ⟨i, hi, rfl⟩ := Option.map_eq_some_iff.mp h
  rw [List.idxOf?, List.findIdx?_eq_some_iff_getElem] at hi
  obtain ⟨hlt, heq, _⟩ := hi
  rw [name?, List.getElem?_eq_getElem hlt, eq_of_beq heq]

/-- A name is given back under its symbol. -/
theorem name?_intern (names : Interner) (name : String) :
    (names.intern name).2.name? (names.intern name).1 = some name := by
  rw [intern]
  split
  next x hx => exact name?_of_get? hx
  next => simp [name?]

end Interner

end BorrowChecker
