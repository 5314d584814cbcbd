import BorrowChecker.Wire.Json
import Mathlib.Data.List.Forall2

/-!
# Lossless wire forms

A wire form is lossless if what is written can be read back, at least for values whose numbers fit the width that they
have on the wire, and everything that is read fits (`Json.Lossless`).

Reading is lenient: a record may have fields that nothing asks for, and a component that may be absent can be left out or
be `null`. Inputs that differ in nothing else, at whatever depth, are alike, and a lossless form reads the same from them.
Which inputs are alike depends on the type, so the relation is put together along the form: of lists, of records and of
variants. A record has a lossless form if each of its components has one (`Components.Lossless.cons`), whatever they are.
-/

namespace BorrowChecker

namespace Json

/-! ## Alike inputs -/

/-- Two lists with items that are alike in turn. -/
inductive ListAlike (alike : Json → Json → Prop) : Json → Json → Prop where
  | same (j : Json) : ListAlike alike j j
  | items {xs ys : List Json} : List.Forall₂ alike xs ys → ListAlike alike (.arr xs) (.arr ys)

/-- A component that a record must have. -/
inductive Required (alike : Json → Json → Prop) : Option Json → Option Json → Prop where
  | missing : Required alike none none
  | present {j j' : Json} : alike j j' → Required alike (some j) (some j')

/-- A component that may be absent says nothing if it is missing or `null`. -/
inductive Silent : Option Json → Prop where
  | missing : Silent none
  | null : Silent (some .null)

/-- A component that may be absent. -/
inductive Optional (alike : Json → Json → Prop) : Option Json → Option Json → Prop where
  | silent {c c' : Option Json} : Silent c → Silent c' → Optional alike c c'
  | present {j j' : Json} : j ≠ .null → j' ≠ .null → alike j j' → Optional alike (some j) (some j')

/-- Components that are alike in turn, each in its own way. -/
inductive ComponentsAlike :
    List (Option Json → Option Json → Prop) → List (Option Json) → List (Option Json) → Prop where
  | nil : ComponentsAlike [] [] []
  | cons {alike : Option Json → Option Json → Prop} {alikes : List (Option Json → Option Json → Prop)}
      {c c' : Option Json} {cs cs' : List (Option Json)} :
      alike c c' → ComponentsAlike alikes cs cs' → ComponentsAlike (alike :: alikes) (c :: cs) (c' :: cs')

/-- Two objects that are alike in the fields with these names, whatever other fields they have. -/
inductive FieldsAlike (names : List String) (alikes : List (Option Json → Option Json → Prop)) : Json → Json → Prop where
  | same (j : Json) : FieldsAlike names alikes j j
  | fields {fields fields' : List (String × Json)} :
      ComponentsAlike alikes (names.map (fields.lookup ·)) (names.map (fields'.lookup ·)) →
      FieldsAlike names alikes (.obj fields) (.obj fields')

/-- Two records that are alike, as objects or as lists of their components. -/
inductive RecordAlike (names : List String) (alikes : List (Option Json → Option Json → Prop)) : Json → Json → Prop where
  | fields {j j' : Json} : FieldsAlike names alikes j j' → RecordAlike names alikes j j'
  | items {xs ys : List Json} :
      ComponentsAlike alikes (xs.map some) (ys.map some) → RecordAlike names alikes (.arr xs) (.arr ys)

/-- Two variants of the same name. Those whose payloads need not be the same are given by name. -/
inductive VariantAlike (payloads : List (String × (Json → Json → Prop))) : Json → Json → Prop where
  | same (j : Json) : VariantAlike payloads j j
  | payload {name : String} {alike : Json → Json → Prop} {j j' : Json} :
      (name, alike) ∈ payloads → alike j j' → VariantAlike payloads (.tagged name j) (.tagged name j')

variable {names : List String} {alikes : List (Option Json → Option Json → Prop)} {j j' : Json}

theorem ComponentsAlike.length_eq {cs cs' : List (Option Json)} (h : ComponentsAlike alikes cs cs') :
    cs.length = cs'.length := by
  induction h with
  | nil => rfl
  | cons _ _ ih => rw [List.length_cons, List.length_cons, ih]

/-- In alike records the same components are found, or alike ones. -/
theorem FieldsAlike.components (h : FieldsAlike names alikes j j') :
    j.fields? names = j'.fields? names ∨
      ∃ cs cs', j.fields? names = some cs ∧ j'.fields? names = some cs' ∧ ComponentsAlike alikes cs cs' := by
  cases h with
  | same => exact Or.inl rfl
  | fields hfields => exact Or.inr ⟨_, _, rfl, rfl, hfields⟩

theorem RecordAlike.components (h : RecordAlike names alikes j j') :
    j.record? names = j'.record? names ∨
      ∃ cs cs', j.record? names = some cs ∧ j'.record? names = some cs' ∧ ComponentsAlike alikes cs cs' := by
  cases h with
  | fields h =>
    cases h with
    | same => exact Or.inl rfl
    | fields hfields => exact Or.inr ⟨_, _, rfl, rfl, hfields⟩
  | @items xs ys hitems =>
    have hlength : xs.length = ys.length := by simpa using hitems.length_eq
    rw [record?, record?]
    by_cases hxs : xs.length = names.length
    · rw [if_pos hxs, if_pos (hlength ▸ hxs)]
      exact Or.inr ⟨_, _, rfl, rfl, hitems⟩
    · rw [if_neg hxs, if_neg fun hys => hxs (hlength.trans hys)]
      exact Or.inl rfl

/-! ## Reading -/

theorem lt_of_natBelow? {limit n : Nat} (h : natBelow? limit j = some n) : n < limit := by
  cases j with
  | int m =>
    rw [natBelow?] at h
    split at h
    · cases h
      omega
    · exact absurd h (by simp)
  | _ => exact absurd h (by simp [natBelow?])

theorem optional?_of_ne_null {α : Type} {decode : Json → Option α} (h : j ≠ .null) :
    optional? decode (some j) = (decode j).map some := by
  cases j with
  | null => exact absurd rfl h
  | _ => rfl

/-- Asked for by their names, the fields of an object are its values in order, if no name comes twice. -/
theorem map_lookup_keys {fields : List (String × Json)} (h : (fields.map Prod.fst).Nodup) :
    (fields.map Prod.fst).map (fields.lookup ·) = fields.map fun field => some field.2 := by
  induction fields with
  | nil => rfl
  | cons field fields ih =>
    obtain ⟨hfresh, hrest⟩ := List.nodup_cons.mp h
    have hskip : ∀ name ∈ fields.map Prod.fst, (field :: fields).lookup name = fields.lookup name := by
      intro name hname
      have hne : (name == field.1) = false := by
        rw [beq_eq_false_iff_ne]
        exact fun heq => hfresh (heq ▸ hname)
      rw [List.lookup_cons, hne]
    have hhere : (field :: fields).lookup field.1 = some field.2 := by rw [List.lookup_cons, beq_self_eq_true]
    rw [List.map_cons, List.map_cons, List.map_congr_left hskip, ih hrest, hhere, List.map_cons]

theorem exists_of_mem_mapM {α : Type} {decode : Json → Option α} {items : List Json} {xs : List α} {a : α}
    (h : items.mapM decode = some xs) (ha : a ∈ xs) : ∃ item ∈ items, decode item = some a := by
  induction items generalizing xs with
  | nil =>
    cases h
    exact absurd ha List.not_mem_nil
  | cons item items ih =>
    rw [List.mapM_cons] at h
    obtain ⟨first, hfirst, hothers⟩ := Option.bind_eq_some_iff.mp h
    obtain ⟨rest, hrest, hxs⟩ := Option.bind_eq_some_iff.mp hothers
    cases hxs
    rcases List.mem_cons.mp ha with rfl | ha
    · exact ⟨item, List.mem_cons_self, hfirst⟩
    · obtain ⟨other, hother, hdecode⟩ := ih hrest ha
      exact ⟨other, List.mem_cons_of_mem _ hother, hdecode⟩

/-! ## Lossless forms -/

/-- A wire form under which all values that fit are read back as they were written, only such values are read, and alike
inputs are read alike. -/
structure Lossless {α : Type} (encode : α → Json) (decode : Json → Option α) (fits : α → Prop)
    (alike : Json → Json → Prop) : Prop where
  decode_encode : ∀ a, fits a → decode (encode a) = some a
  fits_of_decode : ∀ j a, decode j = some a → fits a
  decode_congr : ∀ j j', alike j j' → decode j = decode j'

namespace Lossless

variable {α β : Type} {encode : α → Json} {decode : Json → Option α} {fits : α → Prop} {alike : Json → Json → Prop}

/-- What is read from alike inputs is written in one way. -/
theorem reencode (h : Lossless encode decode fits alike) {j j' : Json} {a : α} (ha : decode j = some a)
    (halike : alike j j') : (decode j').map encode = some (encode a) := by
  rw [← h.decode_congr j j' halike, ha, Option.map_some]

theorem list (h : Lossless encode decode fits alike) :
    Lossless (fun xs => .arr (xs.map encode)) (list? decode) (fun xs => ∀ a ∈ xs, fits a) (ListAlike alike) where
  decode_encode xs hxs := list?_arr_map fun a ha => h.decode_encode a (hxs a ha)
  fits_of_decode j xs hdecode := by
    cases j with
    | arr items =>
      intro a ha
      obtain ⟨item, -, hitem⟩ := exists_of_mem_mapM hdecode ha
      exact h.fits_of_decode item a hitem
    | _ => exact absurd hdecode (by simp [list?])
  decode_congr j j' halike := by
    cases halike with
    | same => rfl
    | @items xs ys hitems =>
      rw [list?, list?]
      induction hitems with
      | nil => rfl
      | cons hhead _ ih => rw [List.mapM_cons, List.mapM_cons, h.decode_congr _ _ hhead, ih]

theorem read_map (h : Lossless encode decode fits alike) {a : α} (ha : fits a) (make : α → β) :
    (decode (encode a)).map make = some (make a) := by
  rw [h.decode_encode a ha, Option.map_some]

theorem map_congr (h : Lossless encode decode fits alike) {j j' : Json} (hj : alike j j') (make : α → β) :
    (decode j).map make = (decode j').map make := by
  rw [h.decode_congr j j' hj]

theorem fits_of_map (h : Lossless encode decode fits alike) {j : Json} {make : α → β} {b : β}
    (hb : (decode j).map make = some b) : ∃ a, fits a ∧ make a = b := by
  obtain ⟨a, ha, hmake⟩ := Option.map_eq_some_iff.mp hb
  exact ⟨a, h.fits_of_decode j a ha, hmake⟩

theorem nat (limit : Nat) : Lossless Json.nat (natBelow? limit) (· < limit) Eq where
  decode_encode _ := natBelow?_nat
  fits_of_decode _ _ := lt_of_natBelow?
  decode_congr _ _ := congrArg _

theorem bool : Lossless Json.bool bool? (fun _ => True) Eq where
  decode_encode _ _ := rfl
  fits_of_decode _ _ _ := trivial
  decode_congr _ _ := congrArg _

/-- A type whose values are put together from those of another, and taken apart again, has the other's form. -/
theorem via (h : Lossless encode decode fits alike) {make : α → β} {parts : β → α} (hmake : ∀ b, make (parts b) = b)
    (hparts : ∀ a, parts (make a) = a) :
    Lossless (fun b => encode (parts b)) (fun j => (decode j).map make) (fun b => fits (parts b)) alike where
  decode_encode b hb := by rw [h.read_map hb make, hmake]
  fits_of_decode j b hb := by
    obtain ⟨a, ha, rfl⟩ := h.fits_of_map hb
    rw [hparts]
    exact ha
  decode_congr j j' hj := h.map_congr hj make

theorem congr_fits (h : Lossless encode decode fits alike) {fits' : α → Prop} (hfits : ∀ a, fits a ↔ fits' a) :
    Lossless encode decode fits' alike := by
  rw [← funext fun a => propext (hfits a)]
  exact h

end Lossless

/-! ## Lossless records -/

/-- The same of a component, which may be missing from what is read. -/
structure Component.Lossless {α : Type} (c : Component α) (fits : α → Prop)
    (alike : Option Json → Option Json → Prop) : Prop where
  read_write : ∀ a, fits a → c.read? (some (c.write a)) = some a
  fits_of_read : ∀ x a, c.read? x = some a → fits a
  read_congr : ∀ x x', alike x x' → c.read? x = c.read? x'

/-- The same of the components of a record in turn. -/
structure Components.Lossless {α : Type} (cs : Components α) (fits : α → Prop)
    (alikes : List (Option Json → Option Json → Prop)) : Prop where
  read_write : ∀ a, fits a → cs.read? ((cs.write a).map fun field => some field.2) = some a
  fits_of_read : ∀ xs a, cs.read? xs = some a → fits a
  read_congr : ∀ xs xs', ComponentsAlike alikes xs xs' → cs.read? xs = cs.read? xs'

section

variable {α : Type} {encode : α → Json} {decode : Json → Option α} {fits : α → Prop} {alike : Json → Json → Prop}

theorem Lossless.required (h : Lossless encode decode fits alike) (name : String) :
    (Component.required name encode decode).Lossless fits (Required alike) where
  read_write := h.decode_encode
  fits_of_read x a ha := by
    obtain ⟨j, -, hj⟩ := Option.bind_eq_some_iff.mp ha
    exact h.fits_of_decode j a hj
  read_congr x x' hx := by
    cases hx with
    | missing => rfl
    | present hj => exact h.decode_congr _ _ hj

theorem optional?_of_silent {c : Option Json} (h : Silent c) : optional? decode c = some none := by
  cases h with
  | missing => rfl
  | null => rfl

theorem Lossless.optional (h : Lossless encode decode fits alike) (hnull : ∀ a, encode a ≠ .null) (name : String) :
    (Component.optional name encode decode).Lossless (fun a? => ∀ a ∈ a?, fits a) (Optional alike) where
  read_write a? ha := optional?_optional a? hnull fun a hmem => h.decode_encode a (ha a hmem)
  fits_of_read x a? ha := by
    change optional? decode x = some a? at ha
    rw [optional?.eq_def] at ha
    split at ha
    · cases ha
      exact fun _ hmem => absurd hmem (by simp)
    · cases ha
      exact fun _ hmem => absurd hmem (by simp)
    · obtain ⟨a, hdecode, rfl⟩ := Option.map_eq_some_iff.mp ha
      intro _ hmem
      cases hmem
      exact h.fits_of_decode _ a hdecode
  read_congr x x' hx := by
    change optional? decode x = optional? decode x'
    cases hx with
    | silent hx hx' => rw [optional?_of_silent hx, optional?_of_silent hx']
    | present hj hj' hsame => rw [optional?_of_ne_null hj, optional?_of_ne_null hj', h.decode_congr _ _ hsame]

end

namespace Components

variable {α β : Type} {c : Component α} {cs : Components α} {fits : α → Prop}

theorem Lossless.last {alike : Option Json → Option Json → Prop} (h : c.Lossless fits alike) :
    (Components.last c).Lossless fits [alike] where
  read_write := h.read_write
  fits_of_read xs a ha := by
    cases xs with
    | nil => exact absurd ha (by simp [read?])
    | cons x xs =>
      cases xs with
      | nil => exact h.fits_of_read x a ha
      | cons => exact absurd ha (by simp [read?])
  read_congr xs xs' hxs := by
    obtain _ | ⟨hx, _ | _⟩ := hxs
    exact h.read_congr _ _ hx

theorem Lossless.cons {ds : Components β} {fits' : β → Prop} {alike : Option Json → Option Json → Prop}
    (h : c.Lossless fits alike) (hs : ds.Lossless fits' alikes) :
    (Components.cons c ds).Lossless (fun a => fits a.1 ∧ fits' a.2) (alike :: alikes) where
  read_write a ha := by
    change (c.read? (some (c.write a.1)) >>= fun first => ds.read? _ >>= fun rest => some (first, rest)) = some a
    rw [h.read_write a.1 ha.1, hs.read_write a.2 ha.2]
    rfl
  fits_of_read xs a ha := by
    cases xs with
    | nil => exact absurd ha (by simp [read?])
    | cons x xs =>
      obtain ⟨first, hfirst, ha⟩ := Option.bind_eq_some_iff.mp ha
      obtain ⟨rest, hrest, ha⟩ := Option.bind_eq_some_iff.mp ha
      cases ha
      exact ⟨h.fits_of_read x first hfirst, hs.fits_of_read xs rest hrest⟩
  read_congr xs xs' hxs := by
    cases hxs with
    | cons hx hxs => rw [read?, read?, h.read_congr _ _ hx, hs.read_congr _ _ hxs]

theorem map_fst_write (cs : Components α) (a : α) : (cs.write a).map Prod.fst = cs.names := by
  induction cs with
  | last c => rfl
  | cons c cs ih => exact congrArg (c.name :: ·) (ih a.2)

theorem fields?_toJson (cs : Components α) (hnames : cs.names.Nodup) (a : α) :
    (cs.toJson a).fields? cs.names = some ((cs.write a).map fun field => some field.2) := by
  have hkeys : ((cs.write a).map Prod.fst).Nodup := by rwa [cs.map_fst_write a]
  rw [toJson, fields?, ← cs.map_fst_write a, map_lookup_keys hkeys]

namespace Lossless

/-- A record is lossless if its components are, whichever way they are found, as long as they are found where they were
written and alike ones in alike inputs. -/
theorem of_find (h : cs.Lossless fits alikes) {find : Json → Option (List (Option Json))} {alike : Json → Json → Prop}
    (hwrite : ∀ a, find (cs.toJson a) = some ((cs.write a).map fun field => some field.2))
    (halike : ∀ j j', alike j j' → find j = find j' ∨
      ∃ xs xs', find j = some xs ∧ find j' = some xs' ∧ ComponentsAlike alikes xs xs') :
    Json.Lossless cs.toJson (fun j => (find j).bind cs.read?) fits alike where
  decode_encode a ha := by rw [hwrite, Option.bind_some, h.read_write a ha]
  fits_of_decode j a ha := by
    obtain ⟨xs, -, hxs⟩ := Option.bind_eq_some_iff.mp ha
    exact h.fits_of_read xs a hxs
  decode_congr j j' hj := by
    rcases halike j j' hj with hsame | ⟨xs, xs', hxs, hxs', hcomponents⟩
    · rw [hsame]
    · rw [hxs, hxs', Option.bind_some, Option.bind_some, h.read_congr xs xs' hcomponents]

theorem fields (h : cs.Lossless fits alikes) (hnames : cs.names.Nodup) :
    Json.Lossless cs.toJson cs.ofFields? fits (FieldsAlike cs.names alikes) :=
  h.of_find (cs.fields?_toJson hnames) fun _ _ => FieldsAlike.components

theorem record (h : cs.Lossless fits alikes) (hnames : cs.names.Nodup) :
    Json.Lossless cs.toJson cs.ofRecord? fits (RecordAlike cs.names alikes) :=
  h.of_find (cs.fields?_toJson hnames) fun _ _ => RecordAlike.components

end Lossless

end Components

end Json

end BorrowChecker
