/-!
# JSON values

Operations and verdicts travel as JSON. A record is an object with a field per component, and may also be the
list of its components in order. A variant is an object with one field, named for the variant, or, if it carries
nothing, just the name.
-/

namespace BorrowChecker

inductive Json where
  | null
  | bool (b : Bool)
  | int (n : Int)
  /-- A number written with a fraction or an exponent, which is never taken for an integer. -/
  | decimal (mantissa exponent : Int)
  | str (s : String)
  | arr (items : List Json)
  | obj (fields : List (String × Json))
deriving Inhabited, Repr

namespace Json

/-! ## Writing -/

def nat (n : Nat) : Json := .int n

/-- A variant that carries a value. -/
def tagged (name : String) (payload : Json) : Json := .obj [(name, payload)]

/-- A value that may be absent. -/
def optional {α : Type} (encode : α → Json) : Option α → Json
  | none => .null
  | some a => encode a

/-! ## Reading -/

/-- Numbers of eight bits lie below this limit. -/
def limit8 : Nat := 256

/-- Numbers of 32 bits lie below this limit. -/
def limit32 : Nat := 4294967296

/-- Numbers of 64 bits lie below this limit. -/
def limit64 : Nat := 18446744073709551616

/-- A natural number below a limit. -/
def natBelow? (limit : Nat) : Json → Option Nat
  | .int n => if 0 ≤ n ∧ n < limit then some n.toNat else none
  | _ => none

def bool? : Json → Option Bool
  | .bool b => some b
  | _ => none

/-- A list whose items all decode. -/
def list? {α : Type} (decode : Json → Option α) : Json → Option (List α)
  | .arr items => items.mapM decode
  | _ => none

/-- The value of a component that may be absent: a missing field and `null` say the same. -/
def optional? {α : Type} (decode : Json → Option α) : Option Json → Option (Option α)
  | none | some .null => some none
  | some j => (decode j).map some

/-- The values of an object's fields with these names; other fields are ignored. -/
def fields? (names : List String) : Json → Option (List (Option Json))
  | .obj fields => some (names.map (fields.lookup ·))
  | _ => none

/-- The components of a record with these names: the fields of an object, or the items of a list that has exactly as
many. -/
def record? (names : List String) : Json → Option (List (Option Json))
  | .arr items => if items.length = names.length then some (items.map some) else none
  | j => j.fields? names

/-! ## Records -/

/-- A component of a record: its name, how it is written, and how it is read where it may be missing. -/
structure Component (α : Type) where
  name : String
  write : α → Json
  read? : Option Json → Option α

/-- A component that a record must have. -/
def Component.required {α : Type} (name : String) (encode : α → Json) (decode : Json → Option α) : Component α :=
  ⟨name, encode, fun c => c.bind decode⟩

/-- A component that may be absent. -/
def Component.optional {α : Type} (name : String) (encode : α → Json) (decode : Json → Option α) :
    Component (Option α) :=
  ⟨name, Json.optional encode, optional? decode⟩

/-- The components of a record in their order. -/
inductive Components : Type → Type 1 where
  | last {α : Type} (c : Component α) : Components α
  | cons {α β : Type} (c : Component α) (cs : Components β) : Components (α × β)

namespace Components

variable {α : Type}

def names : {α : Type} → Components α → List String
  | _, .last c => [c.name]
  | _, .cons c cs => c.name :: cs.names

def write : {α : Type} → Components α → α → List (String × Json)
  | _, .last c, a => [(c.name, c.write a)]
  | _, .cons c cs, (a, b) => (c.name, c.write a) :: cs.write b

def read? : {α : Type} → Components α → List (Option Json) → Option α
  | _, .last c, [x] => c.read? x
  | _, .cons c cs, x :: xs => do
    let a ← c.read? x
    let b ← cs.read? xs
    return (a, b)
  | _, _, _ => none

def toJson (cs : Components α) (a : α) : Json := .obj (cs.write a)

/-- A record that is a variant's payload is always an object. -/
def ofFields? (cs : Components α) (j : Json) : Option α := (j.fields? cs.names).bind cs.read?

def ofRecord? (cs : Components α) (j : Json) : Option α := (j.record? cs.names).bind cs.read?

end Components

/-! ## Variants -/

/-- A variant's name and what it carries. -/
def variant? : Json → Option (String × Option Json)
  | .str name => some (name, none)
  | .obj [(name, payload)] => some (name, some payload)
  | _ => none

/-- The name of a variant that carries nothing, which may also be said by `null`. -/
def name? (j : Json) : Option String :=
  match j.variant? with
  | some (name, none) | some (name, some .null) => some name
  | _ => none

/-! ## Reading what was written -/

theorem natBelow?_nat {limit n : Nat} (h : n < limit) : natBelow? limit (nat n) = some n := by
  simp [natBelow?, nat, h]

theorem optional?_optional {α : Type} {encode : α → Json} {decode : Json → Option α} (a : Option α)
    (hnull : ∀ a, encode a ≠ .null) (h : ∀ b ∈ a, decode (encode b) = some b) :
    optional? decode (some (optional encode a)) = some a := by
  cases a with
  | none => rfl
  | some a =>
    rw [optional, optional?]
    · simp [h a rfl]
    · exact hnull a

theorem list?_arr_map {α : Type} {encode : α → Json} {decode : Json → Option α} {xs : List α}
    (h : ∀ a ∈ xs, decode (encode a) = some a) : (arr (xs.map encode)).list? decode = some xs := by
  rw [list?]
  induction xs with
  | nil => rfl
  | cons a xs ih =>
    have ha := h a List.mem_cons_self
    have hxs := ih fun b hb => h b (List.mem_cons_of_mem a hb)
    simp [ha, hxs]

end Json

end BorrowChecker
