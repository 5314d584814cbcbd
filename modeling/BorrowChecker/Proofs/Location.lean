import BorrowChecker.Proofs.Overlap

/-!
# Overlap and concrete locations

A place stands for a set of concrete locations. A field, what a pointer points to and an element of an array are one
step each, and an index may choose any element. A window is no step: it stays at the array and restricts the element that
is chosen next, and a path that ends in windows stands for the elements that they leave.

Overlap compares two paths position by position. A window takes up a position without being a step, so two projections at
the same position need not start at the same storage. Whether they do is seen from the shapes of the paths, without the
names of fields and the bounds of windows. Two shapes are in step if fields are compared with fields, and windows with
windows, only after equally many steps (`InStep`). Places of such shapes that share storage overlap, and of any other two
shapes that can share storage there are places that share it and are told apart (`overlap_sound_exactly_in_step`). A
record and one of its fields are among them (`common_field_missed_behind_window`).
-/

namespace BorrowChecker

namespace Projection

/-- What a projection does, without the name of a field and the bounds of a window. -/
inductive Kind where
  | field
  | index
  | deref
  | window
deriving DecidableEq, Repr

def kind : Projection → Kind
  | .field _ => .field
  | .index => .index
  | .deref => .deref
  | .subslice _ _ => .window

end Projection

namespace Place

/-! ## Locations -/

/-- One step of a concrete location. -/
inductive Step where
  | field (name : Symbol)
  | pointee
  | element (i : Nat)
deriving DecidableEq, Repr

def covers (lo : Nat) (hi : Option Nat) (i : Nat) : Prop := lo ≤ i ∧ ∀ bound ∈ hi, i < bound

/-- The locations that a path leads to. The windows passed since the last step restrict the element that comes next. -/
inductive Reaches : List (Nat × Option Nat) → List Projection → List Step → Prop where
  | here : Reaches [] [] []
  | covered {windows : List (Nat × Option Nat)} {i : Nat} :
      windows ≠ [] → (∀ w ∈ windows, covers w.1 w.2 i) → Reaches windows [] [.element i]
  | field {windows : List (Nat × Option Nat)} {name : Symbol} {path : List Projection} {loc : List Step} :
      Reaches [] path loc → Reaches windows (.field name :: path) (.field name :: loc)
  | deref {windows : List (Nat × Option Nat)} {path : List Projection} {loc : List Step} :
      Reaches [] path loc → Reaches windows (.deref :: path) (.pointee :: loc)
  | index {windows : List (Nat × Option Nat)} {i : Nat} {path : List Projection} {loc : List Step} :
      (∀ w ∈ windows, covers w.1 w.2 i) → Reaches [] path loc → Reaches windows (.index :: path) (.element i :: loc)
  | window {windows : List (Nat × Option Nat)} {lo : Nat} {hi : Option Nat} {path : List Projection} {loc : List Step} :
      Reaches ((lo, hi) :: windows) path loc → Reaches windows (.subslice lo hi :: path) loc

/-- Whether `loc` is one of the locations, counted from its variable, that `p` may name. -/
def Names (p : Place) (loc : List Step) : Prop := Reaches [] p.path loc

/-- Whether a location of one place is, or contains, a location of the other. -/
def Meets (p q : Place) : Prop := ∃ x y, p.Names x ∧ q.Names y ∧ (x <+: y ∨ y <+: x)

/-! ## Shapes -/

def shape (p : Place) : List Projection.Kind := p.path.map Projection.kind

/-- How many steps lead to a position of a path. -/
def stepsBefore (shape : List Projection.Kind) (n : Nat) : Nat := (shape.take n).countP (· != .window)

/-- Whether the next step of a path, its windows aside, chooses an element. A path without a further step covers some. -/
def choosesElement : List Projection.Kind → Bool
  | [] => true
  | .index :: _ => true
  | .window :: shape => choosesElement shape
  | _ => false

/-- Fields are compared only with fields of the same record, and windows with windows of the same array: equally many
steps lead there on both sides. What such windows restrict is the choice of an element. -/
def InStep (a b : List Projection.Kind) : Prop :=
  ∀ n < a.length,
    (a[n]? = some .field → b[n]? = some .field → stepsBefore a n = stepsBefore b n) ∧
    (a[n]? = some .window → b[n]? = some .window →
      stepsBefore a n = stepsBefore b n ∧
        choosesElement (a.drop (n + 1)) = true ∧ choosesElement (b.drop (n + 1)) = true)

instance (a b : List Projection.Kind) : Decidable (InStep a b) :=
  inferInstanceAs (Decidable (∀ n < a.length, _))

@[simp] theorem stepsBefore_zero (shape : List Projection.Kind) : stepsBefore shape 0 = 0 := rfl

@[simp] theorem stepsBefore_cons_succ (kind : Projection.Kind) (shape : List Projection.Kind) (n : Nat) :
    stepsBefore (kind :: shape) (n + 1) = stepsBefore shape n + if kind = .window then 0 else 1 := by
  cases kind <;> simp [stepsBefore]

/-! ## Overlap by positions -/

/-- Places of one variable overlap if no two projections at the same position are disjoint. -/
theorem overlaps_iff_getElem? {p q : Place} (hroot : p.root = q.root) :
    p.overlaps q = true ↔
      ∀ (n : Nat) (e f : Projection), p.path[n]? = some e → q.path[n]? = some f → e.disjoint f = false := by
  rw [overlaps, hroot, beq_self_eq_true, Bool.true_and, List.all_eq_true]
  constructor
  · intro hnone n e f he hf
    have hpair : (e, f) ∈ p.path.zip q.path :=
      List.mem_of_getElem? (List.getElem?_zip_eq_some.mpr ⟨he, hf⟩)
    exact Bool.not_eq_true' _ |>.mp (hnone (e, f) hpair)
  · intro hnone pair hpair
    obtain ⟨n, hn⟩ := List.mem_iff_getElem?.mp hpair
    obtain ⟨he, hf⟩ := List.getElem?_zip_eq_some.mp hn
    exact Bool.not_eq_true' _ |>.mpr (hnone n pair.1 pair.2 he hf)

theorem ne_of_disjoint_windows {a c i j : Nat} {b d : Option Nat}
    (hdisjoint : (Projection.subslice a b).disjoint (.subslice c d) = true) (hi : covers a b i) (hj : covers c d j) :
    i ≠ j := by
  rw [Projection.disjoint, Bool.or_eq_true, Option.any_eq_true, Option.any_eq_true] at hdisjoint
  rcases hdisjoint with ⟨bound, hbound, hle⟩ | ⟨bound, hbound, hle⟩
  · have hle : bound ≤ c := of_decide_eq_true hle
    have hlt : i < bound := hi.2 bound hbound
    have hge : c ≤ j := hj.1
    omega
  · have hle : bound ≤ a := of_decide_eq_true hle
    have hlt : j < bound := hj.2 bound hbound
    have hge : a ≤ i := hi.1
    omega

/-! ## Steps of a location -/

namespace Reaches

variable {windows : List (Nat × Option Nat)} {path : List Projection} {loc : List Step}

/-- The element that is chosen after some windows lies in each of them. -/
theorem element_of_window {w : Nat × Option Nat} (h : Reaches windows path loc) (hw : w ∈ windows)
    (hchooses : choosesElement (path.map Projection.kind) = true) :
    ∃ i, loc[0]? = some (.element i) ∧ covers w.1 w.2 i := by
  induction h with
  | here => exact absurd hw List.not_mem_nil
  | covered _ hcovers => exact ⟨_, rfl, hcovers w hw⟩
  | index hcovers _ => exact ⟨_, rfl, hcovers w hw⟩
  | window _ ih => exact ih (List.mem_cons_of_mem _ hw) hchooses
  | field | deref => exact absurd hchooses (by simp [choosesElement, Projection.kind])

/-- A field of a path is a step of the location, after the steps that lead to it. -/
theorem field_at {n : Nat} {name : Symbol} (h : Reaches windows path loc) (hn : path[n]? = some (.field name)) :
    loc[stepsBefore (path.map Projection.kind) n]? = some (.field name) := by
  induction h generalizing n with
  | here | covered => exact absurd hn (by simp)
  | field _ ih =>
    cases n with
    | zero => simpa using hn
    | succ n => simpa [Projection.kind] using ih hn
  | deref _ ih | index _ _ ih | window _ ih =>
    cases n with
    | zero => exact absurd hn (by simp)
    | succ n => simpa [Projection.kind] using ih hn

/-- A window of a path that restricts the choice of an element covers the element of the location. -/
theorem window_at {n lo : Nat} {hi : Option Nat} (h : Reaches windows path loc)
    (hn : path[n]? = some (.subslice lo hi))
    (hchooses : choosesElement ((path.map Projection.kind).drop (n + 1)) = true) :
    ∃ i, loc[stepsBefore (path.map Projection.kind) n]? = some (.element i) ∧ covers lo hi i := by
  induction h generalizing n with
  | here | covered => exact absurd hn (by simp)
  | field _ ih | deref _ ih | index _ _ ih =>
    cases n with
    | zero => exact absurd hn (by simp)
    | succ n => simpa [Projection.kind] using ih hn hchooses
  | @window windows lo' hi' path loc hrest ih =>
    cases n with
    | zero =>
      obtain ⟨rfl, rfl⟩ : lo' = lo ∧ hi' = hi := by simpa using hn
      exact hrest.element_of_window List.mem_cons_self hchooses
    | succ n => simpa [Projection.kind] using ih hn hchooses

end Reaches

theorem eq_of_isPrefix_of_getElem? {x y : List Step} (halong : x <+: y ∨ y <+: x) {d : Nat} {s t : Step}
    (hs : x[d]? = some s) (ht : y[d]? = some t) : s = t := by
  rcases halong with ⟨rest, rfl⟩ | ⟨rest, rfl⟩
  · rw [List.getElem?_append_left (List.getElem?_eq_some_iff.mp hs).1, hs] at ht
    exact Option.some.inj ht
  · rw [List.getElem?_append_left (List.getElem?_eq_some_iff.mp ht).1, ht] at hs
    exact (Option.some.inj hs).symm

theorem getElem?_shape {p : Place} {n : Nat} {e : Projection} (h : p.path[n]? = some e) :
    p.shape[n]? = some e.kind := by
  rw [shape, List.getElem?_map, h, Option.map_some]

/-- Disjoint projections that stand in step are after equally many steps, where locations of the two paths differ. -/
theorem not_disjoint_of_inStep {p q : Place} (hstep : InStep p.shape q.shape) (hmeets : p.Meets q) {n : Nat}
    {e f : Projection} (he : p.path[n]? = some e) (hf : q.path[n]? = some f) : e.disjoint f = false := by
  obtain ⟨x, y, hx, hy, halong⟩ := hmeets
  have hlt : n < p.shape.length := (List.getElem?_eq_some_iff.mp (getElem?_shape he)).1
  obtain ⟨hfields, hwindows⟩ := hstep n hlt
  rw [getElem?_shape he, getElem?_shape hf] at hfields hwindows
  rw [← Bool.not_eq_true]
  intro hdisjoint
  cases e with
  | field a =>
    cases f with
    | field b =>
      have hsteps : stepsBefore p.shape n = stepsBefore q.shape n := hfields rfl rfl
      have hat : y[stepsBefore p.shape n]? = some (.field b) := hsteps ▸ hy.field_at hf
      have heq : Step.field a = .field b := eq_of_isPrefix_of_getElem? halong (hx.field_at he) hat
      cases heq
      simp [Projection.disjoint] at hdisjoint
    | _ => exact Bool.noConfusion hdisjoint
  | subslice a b =>
    cases f with
    | subslice c d =>
      obtain ⟨hsteps, hchooses, hchooses'⟩ := hwindows rfl rfl
      obtain ⟨i, hi, hcovers⟩ := hx.window_at he hchooses
      obtain ⟨j, hj, hcovers'⟩ := hy.window_at hf hchooses'
      have hat : y[stepsBefore p.shape n]? = some (.element j) := hsteps ▸ hj
      have heq : Step.element i = .element j := eq_of_isPrefix_of_getElem? halong hi hat
      exact ne_of_disjoint_windows hdisjoint hcovers hcovers' (Step.element.inj heq)
    | _ => exact Bool.noConfusion hdisjoint
  | index | deref => exact Bool.noConfusion hdisjoint

/-! ## Places of a shape -/

/-- The path of a shape with given names and windows: `name d` is the field after `d` steps, and `bounds n` are the
bounds of the window at position `n`. -/
def labelled (name : Nat → Symbol) (bounds : Nat → Nat × Option Nat) : List Projection.Kind → List Projection
  | [] => []
  | .field :: shape => .field (name 0) :: labelled (fun d => name (d + 1)) (fun n => bounds (n + 1)) shape
  | .index :: shape => .index :: labelled (fun d => name (d + 1)) (fun n => bounds (n + 1)) shape
  | .deref :: shape => .deref :: labelled (fun d => name (d + 1)) (fun n => bounds (n + 1)) shape
  | .window :: shape => .subslice (bounds 0).1 (bounds 0).2 :: labelled name (fun n => bounds (n + 1)) shape

/-- A step with the name or the element that is given for its position. -/
def Step.relabel (name : Nat → Symbol) (element : Nat → Nat) (d : Nat) : Step → Step
  | .field _ => .field (name d)
  | .pointee => .pointee
  | .element _ => .element (element d)

section Labelled

variable {name : Nat → Symbol} {bounds : Nat → Nat × Option Nat} {element : Nat → Nat}

theorem kind_labelled (name : Nat → Symbol) (bounds : Nat → Nat × Option Nat) (shape : List Projection.Kind) :
    (labelled name bounds shape).map Projection.kind = shape := by
  induction shape generalizing name bounds with
  | nil => rfl
  | cons kind shape ih => cases kind <;> simp [labelled, Projection.kind, ih]

theorem labelled_field {shape : List Projection.Kind} {n : Nat} (h : shape[n]? = some .field) :
    (labelled name bounds shape)[n]? = some (.field (name (stepsBefore shape n))) := by
  induction shape generalizing name bounds n with
  | nil => exact absurd h (by simp)
  | cons kind shape ih =>
    cases n with
    | zero =>
      obtain rfl : kind = .field := by simpa using h
      rfl
    | succ n =>
      rw [List.getElem?_cons_succ] at h
      cases kind <;> simp [labelled, ih h]

theorem labelled_window {shape : List Projection.Kind} {n : Nat} (h : shape[n]? = some .window) :
    (labelled name bounds shape)[n]? = some (.subslice (bounds n).1 (bounds n).2) := by
  induction shape generalizing name bounds n with
  | nil => exact absurd h (by simp)
  | cons kind shape ih =>
    cases n with
    | zero =>
      obtain rfl : kind = .window := by simpa using h
      rfl
    | succ n =>
      rw [List.getElem?_cons_succ] at h
      cases kind <;> simp [labelled, ih h]

/-- The bounds leave the chosen elements in every window that restricts a choice. -/
def Admits (bounds : Nat → Nat × Option Nat) (element : Nat → Nat) (shape : List Projection.Kind) : Prop :=
  ∀ n, shape[n]? = some .window → choosesElement (shape.drop (n + 1)) = true →
    covers (bounds n).1 (bounds n).2 (element (stepsBefore shape n))

theorem Admits.tail {kind : Projection.Kind} {shape : List Projection.Kind} (h : Admits bounds element (kind :: shape))
    (hkind : kind ≠ .window) : Admits (fun n => bounds (n + 1)) (fun d => element (d + 1)) shape := by
  intro n hn hchooses
  simpa [hkind] using h (n + 1) hn hchooses

theorem Admits.tail_window {shape : List Projection.Kind} (h : Admits bounds element (.window :: shape)) :
    Admits (fun n => bounds (n + 1)) element shape := by
  intro n hn hchooses
  simpa using h (n + 1) hn hchooses

/-- A location of a path stays one if path and location get the same names and the windows leave the elements. -/
theorem Reaches.relabel {windows windows' : List (Nat × Option Nat)} {path : List Projection} {loc : List Step}
    (h : Reaches windows path loc) (hsame : windows = [] ↔ windows' = [])
    (hcovers : choosesElement (path.map Projection.kind) = true → ∀ w ∈ windows', covers w.1 w.2 (element 0))
    (hadmits : Admits bounds element (path.map Projection.kind)) :
    Reaches windows' (labelled name bounds (path.map Projection.kind)) (loc.mapIdx (Step.relabel name element)) := by
  induction h generalizing windows' name bounds element with
  | here =>
    rw [hsame.mp rfl]
    exact .here
  | covered hne _ => exact .covered (fun hnil => hne (hsame.mpr hnil)) (hcovers rfl)
  | field _ ih =>
    rw [List.mapIdx_cons]
    exact .field (ih Iff.rfl (fun _ w hw => absurd hw List.not_mem_nil) (hadmits.tail (by simp [Projection.kind])))
  | deref _ ih =>
    rw [List.mapIdx_cons]
    exact .deref (ih Iff.rfl (fun _ w hw => absurd hw List.not_mem_nil) (hadmits.tail (by simp [Projection.kind])))
  | index _ _ ih =>
    rw [List.mapIdx_cons]
    exact .index (hcovers rfl)
      (ih Iff.rfl (fun _ w hw => absurd hw List.not_mem_nil) (hadmits.tail (by simp [Projection.kind])))
  | window _ ih =>
    refine .window (ih (by simp) (fun hchooses w hw => ?_) hadmits.tail_window)
    rcases List.mem_cons.mp hw with rfl | hw
    · exact hadmits 0 rfl hchooses
    · exact hcovers hchooses w hw

theorem isPrefix_relabel {x y : List Step} (h : x <+: y) :
    x.mapIdx (Step.relabel name element) <+: y.mapIdx (Step.relabel name element) := by
  obtain ⟨rest, rfl⟩ := h
  exact ⟨_, List.mapIdx_append.symm⟩

/-- Places that share storage still do so with other names and windows, if both get the same names and the windows of
both leave the same elements. -/
theorem Meets.labelled {p q : Place} (h : p.Meets q) {bounds' : Nat → Nat × Option Nat} (root : Symbol)
    (hp : Admits bounds element p.shape) (hq : Admits bounds' element q.shape) :
    Meets ⟨root, labelled name bounds p.shape⟩ ⟨root, labelled name bounds' q.shape⟩ := by
  obtain ⟨x, y, hx, hy, halong⟩ := h
  exact ⟨_, _, hx.relabel Iff.rfl (fun _ w hw => absurd hw List.not_mem_nil) hp,
    hy.relabel Iff.rfl (fun _ w hw => absurd hw List.not_mem_nil) hq, halong.imp isPrefix_relabel isPrefix_relabel⟩

end Labelled

/-! ## Shapes out of step -/

/-- There are places of two shapes that share storage and do not overlap. -/
def ToldApart (a b : List Projection.Kind) : Prop :=
  ∃ p q : Place, p.shape = a ∧ q.shape = b ∧ p.root = q.root ∧ p.Meets q ∧ p.overlaps q = false

/-- Two paths of given shapes with the same names, whose windows leave the same elements, are told apart by disjoint
projections at the same position. -/
theorem toldApart_of_disjoint {p q : Place} (hmeets : p.Meets q) (name : Nat → Symbol)
    {bounds bounds' : Nat → Nat × Option Nat} {element : Nat → Nat} (hp : Admits bounds element p.shape)
    (hq : Admits bounds' element q.shape) {n : Nat} {e f : Projection}
    (he : (labelled name bounds p.shape)[n]? = some e) (hf : (labelled name bounds' q.shape)[n]? = some f)
    (hdisjoint : e.disjoint f = true) : ToldApart p.shape q.shape := by
  let p' : Place := ⟨p.root, labelled name bounds p.shape⟩
  let q' : Place := ⟨p.root, labelled name bounds' q.shape⟩
  have hroot : p'.root = q'.root := rfl
  refine ⟨p', q', kind_labelled _ _ _, kind_labelled _ _ _, hroot, hmeets.labelled p.root hp hq, ?_⟩
  rw [← Bool.not_eq_true, overlaps_iff_getElem? hroot]
  intro hnone
  rw [hnone n e f he hf] at hdisjoint
  exact Bool.noConfusion hdisjoint

/-- Fields after different numbers of steps are fields of different records, so they can have different names. -/
theorem toldApart_of_fields {p q : Place} (hmeets : p.Meets q) {n : Nat} (hp : p.shape[n]? = some .field)
    (hq : q.shape[n]? = some .field) (hsteps : stepsBefore p.shape n ≠ stepsBefore q.shape n) :
    ToldApart p.shape q.shape := by
  let name : Nat → Symbol := fun d => if d = stepsBefore p.shape n then ⟨0⟩ else ⟨1⟩
  have hall (shape : List Projection.Kind) : Admits (fun _ => (0, none)) (fun _ => 0) shape :=
    fun _ _ _ => by simp [covers]
  refine toldApart_of_disjoint hmeets name (hall _) (hall _) (labelled_field hp) (labelled_field hq) ?_
  simp [Projection.disjoint, name, hsteps.symm]

/-- Windows that do not restrict the choice of the same element can be disjoint: the first element is chosen for the one
and the second for the other. -/
theorem toldApart_of_windows {p q : Place} (hmeets : p.Meets q) {n : Nat} (hp : p.shape[n]? = some .window)
    (hq : q.shape[n]? = some .window)
    (hchoice : ¬ (stepsBefore p.shape n = stepsBefore q.shape n ∧ choosesElement (p.shape.drop (n + 1)) = true ∧
      choosesElement (q.shape.drop (n + 1)) = true)) : ToldApart p.shape q.shape := by
  let element : Nat → Nat := fun d =>
    if d = stepsBefore q.shape n ∧ choosesElement (q.shape.drop (n + 1)) = true then 1 else 0
  have hleft : Admits (fun m => if m = n then (0, some 1) else (0, none)) element p.shape := by
    intro m _ hchooses
    by_cases hm : m = n
    · subst hm
      have hfirst : element (stepsBefore p.shape m) = 0 := if_neg fun h => hchoice ⟨h.1, hchooses, h.2⟩
      simp [covers, hfirst]
    · simp [covers, hm]
  have hright : Admits (fun m => if m = n then (1, none) else (0, none)) element q.shape := by
    intro m _ hchooses
    by_cases hm : m = n
    · subst hm
      have hsecond : element (stepsBefore q.shape m) = 1 := if_pos ⟨rfl, hchooses⟩
      simp [covers, hsecond]
    · simp [covers, hm]
  refine toldApart_of_disjoint hmeets (fun _ => ⟨0⟩) hleft hright (labelled_window hp) (labelled_window hq) ?_
  simp [Projection.disjoint]

/-! ## Soundness -/

/-- **Overlap is sound in step,** and only there. Two places of one variable that share storage overlap if their shapes
are in step. If they are not, some two places of the same shapes share storage and do not overlap. -/
theorem overlap_sound_exactly_in_step {p q : Place} (hroot : p.root = q.root) (hmeets : p.Meets q) :
    (InStep p.shape q.shape → p.overlaps q = true) ∧ (¬ InStep p.shape q.shape → ToldApart p.shape q.shape) := by
  constructor
  · intro hstep
    exact (overlaps_iff_getElem? hroot).mpr fun n e f he hf => not_disjoint_of_inStep hstep hmeets he hf
  · intro hstep
    by_contra hsound
    refine hstep fun n _ => ⟨fun hp hq => ?_, fun hp hq => ?_⟩
    · by_contra hsteps
      exact hsound (toldApart_of_fields hmeets hp hq hsteps)
    · by_contra hchoice
      exact hsound (toldApart_of_windows hmeets hp hq hchoice)

/-- Windows with an element in common, on two levels of nested arrays. The inner windows stand against indices, but the
fields behind them are compared in step again. A window in one path only leaves the shapes out of step. -/
theorem nested_windows_overlap_in_step :
    let p : Place := ⟨⟨0⟩, [.subslice 0 (some 2), .index, .subslice 0 (some 2), .index, .index, .field ⟨1⟩]⟩
    let q : Place := ⟨⟨0⟩, [.subslice 1 none, .index, .index, .subslice 1 none, .index, .field ⟨1⟩, .deref]⟩
    let r : Place := ⟨⟨0⟩, [.subslice 0 (some 2), .index, .field ⟨1⟩]⟩
    let t : Place := ⟨⟨0⟩, [.index, .field ⟨1⟩, .field ⟨1⟩]⟩
    (InStep p.shape q.shape ∧ p.Meets q ∧ p.overlaps q = true) ∧
      ¬ InStep r.shape t.shape ∧ r.Meets t ∧ ToldApart r.shape t.shape := by
  intro p q r t
  have hstep : InStep p.shape q.shape := by decide
  have hmeets : p.Meets q := by
    refine ⟨[.element 1, .element 0, .element 1, .field ⟨1⟩], [.element 1, .element 0, .element 1, .field ⟨1⟩, .pointee],
      ?_, ?_, Or.inl ⟨[.pointee], rfl⟩⟩
    · exact .window (.index (by simp [covers]) (.window (.index (by simp [covers]) (.index (by simp) (.field .here)))))
    · exact .window (.index (by simp [covers]) (.index (by simp) (.window (.index (by simp [covers])
        (.field (.deref .here))))))
  have hout : ¬ InStep r.shape t.shape := by decide
  have hshared : r.Meets t := by
    refine ⟨[.element 0, .field ⟨1⟩], [.element 0, .field ⟨1⟩, .field ⟨1⟩], ?_, ?_, Or.inl ⟨[.field ⟨1⟩], rfl⟩⟩
    · exact .window (.index (by simp [covers]) (.field .here))
    · exact .index (by simp) (.field (.field .here))
  have hroot : p.root = q.root := rfl
  have hroot' : r.root = t.root := rfl
  exact ⟨⟨hstep, hmeets, (overlap_sound_exactly_in_step hroot hmeets).1 hstep⟩, hout, hshared,
    (overlap_sound_exactly_in_step hroot' hshared).2 hout⟩

/-- A field of the first elements of an array contains a field of that field of any element, but the window has put the
comparison out of step: it is between the two fields, which are not fields of one record. -/
theorem common_field_missed_behind_window :
    let p : Place := ⟨⟨0⟩, [.subslice 0 (some 2), .index, .field ⟨1⟩]⟩
    let q : Place := ⟨⟨0⟩, [.index, .field ⟨1⟩, .field ⟨2⟩]⟩
    p.root = q.root ∧ p.Meets q ∧ p.overlaps q = false := by
  intro p q
  refine ⟨rfl, ?_, by decide⟩
  refine ⟨[.element 0, .field ⟨1⟩], [.element 0, .field ⟨1⟩, .field ⟨2⟩], ?_, ?_, Or.inl ⟨[.field ⟨2⟩], rfl⟩⟩
  · exact .window (.index (by simp [covers]) (.field .here))
  · exact .index (by simp) (.field (.field .here))

end Place

end BorrowChecker
