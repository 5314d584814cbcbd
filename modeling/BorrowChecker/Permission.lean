/-!
# Permission sets

A set of permissions is a word of eight bits. Read, write and own have the lowest three; the others carry no
meaning here and are kept as they are.
-/

namespace BorrowChecker

/-- A set of permissions, one bit each. -/
@[ext]
structure PermSet where
  bits : BitVec 8
deriving DecidableEq, Repr, Inhabited

namespace PermSet

def read : PermSet := ⟨1#8⟩

def write : PermSet := ⟨2#8⟩

def own : PermSet := ⟨4#8⟩

instance : EmptyCollection PermSet := ⟨⟨0#8⟩⟩

instance : Union PermSet := ⟨fun a b => ⟨a.bits ||| b.bits⟩⟩

instance : Inter PermSet := ⟨fun a b => ⟨a.bits &&& b.bits⟩⟩

instance : SDiff PermSet := ⟨fun a b => ⟨a.bits &&& ~~~b.bits⟩⟩

instance : HasSubset PermSet := ⟨fun a b => b.bits &&& a.bits = a.bits⟩

instance (a b : PermSet) : Decidable (a ⊆ b) := inferInstanceAs (Decidable (b.bits &&& a.bits = a.bits))

def readWrite : PermSet := read ∪ write

def writeOwn : PermSet := write ∪ own

def all : PermSet := read ∪ write ∪ own

/-- The permissions of `needs` that `held` lacks. -/
def missing (held needs : PermSet) : PermSet := needs \ held

/-- `R`, `W` and `O` for the permissions in the set, or a dash for the empty set. -/
def render (s : PermSet) : String :=
  if s = ∅ then "-" else
    (if read ⊆ s then "R" else "") ++ (if write ⊆ s then "W" else "") ++ (if own ⊆ s then "O" else "")

/-- The set with the name of its type, as a dump of internal state shows it. -/
def renderTagged (s : PermSet) : String := "PermSet(" ++ s.render ++ ")"

/-! ## Sets as words -/

@[simp] theorem bits_empty : (∅ : PermSet).bits = 0#8 := rfl

@[simp] theorem bits_union (a b : PermSet) : (a ∪ b).bits = a.bits ||| b.bits := rfl

@[simp] theorem bits_inter (a b : PermSet) : (a ∩ b).bits = a.bits &&& b.bits := rfl

@[simp] theorem bits_sdiff (a b : PermSet) : (a \ b).bits = a.bits &&& ~~~b.bits := rfl

theorem subset_def (a b : PermSet) : a ⊆ b ↔ b.bits &&& a.bits = a.bits := Iff.rfl

/-- Nothing is missing exactly if the needed permissions are held. -/
theorem missing_eq_empty_iff {held needs : PermSet} : held.missing needs = ∅ ↔ needs ⊆ held := by
  rw [subset_def, missing]
  constructor
  · intro h
    have hbits : needs.bits &&& ~~~held.bits = 0#8 := congrArg bits h
    ext i hi
    have hi' := congrArg (·.getLsbD i) hbits
    simp [BitVec.getLsbD_eq_getElem hi] at hi' ⊢
    intro hn
    cases hh : held.bits[i] with
    | true => rfl
    | false => simp [hn, hh] at hi'
  · intro h
    ext i hi
    have hi' := congrArg (·.getLsbD i) h
    simp [BitVec.getLsbD_eq_getElem hi] at hi' ⊢
    intro hn
    exact hi' hn

end PermSet

end BorrowChecker
