import BorrowChecker.Proofs.Codec
import BorrowChecker.Wire.Verdict

/-!
# The wire form of operations and verdicts

For each type that travels, which of its values fit the wire and which inputs are alike, and that its form is lossless.
The forms are put together from those of the components, as the reading is. On the wire, symbols and numbers of scopes
and loans have 32 bits, and bounds and indices have 64.
-/

namespace BorrowChecker

open Json (Components Lossless Required Optional FieldsAlike RecordAlike VariantAlike ListAlike)

/-! ## Places -/

def Symbol.Fits (x : Symbol) : Prop := x.number < numberLimit

theorem Symbol.lossless : Lossless Symbol.toJson Symbol.ofJson? Symbol.Fits Eq where
  decode_encode x hx := by
    rw [toJson, ofJson?, Json.natBelow?_nat hx, Option.bind_some, ofNumber?_number hx]
  fits_of_decode j x h := by
    obtain ⟨n, -, hx⟩ := Option.bind_eq_some_iff.mp h
    obtain ⟨hnumber, hlt⟩ := number_of_ofNumber? hx
    rw [Fits, hnumber]
    exact hlt
  decode_congr _ _ := congrArg _

namespace Projection

def Fits : Projection → Prop
  | .field name => name.Fits
  | .index | .deref => True
  | .subslice lo hi => lo < Json.limit64 ∧ ∀ n ∈ hi, n < Json.limit64

def WindowAlike : Json → Json → Prop := FieldsAlike ["from", "to"] [Required Eq, Optional Eq]

def Alike : Json → Json → Prop := VariantAlike [("Subslice", WindowAlike)]

theorem window_lossless : Lossless window.toJson window.ofFields?
    (fun bounds => bounds.1 < Json.limit64 ∧ ∀ n ∈ bounds.2, n < Json.limit64) WindowAlike :=
  (Components.Lossless.cons ((Lossless.nat _).required _)
    (.last ((Lossless.nat _).optional (fun _ h => Json.noConfusion h) _))).fields (by decide)

theorem ofJson?_field (j : Json) : ofJson? (.tagged "Field" j) = (Symbol.ofJson? j).map .field := by
  cases j <;> rfl

theorem ofJson?_subslice (j : Json) :
    ofJson? (.tagged "Subslice" j) = (window.ofFields? j).map fun (lo, hi) => .subslice lo hi := by
  cases j <;> rfl

theorem lossless : Lossless toJson ofJson? Fits Alike where
  decode_encode e he := by
    cases e with
    | field name => rw [toJson, ofJson?_field, (Symbol.lossless).decode_encode name he, Option.map_some]
    | index => rfl
    | deref => rfl
    | subslice lo hi =>
      rw [toJson, ofJson?_subslice]
      exact (window_lossless).read_map (a := (lo, hi)) he _
  fits_of_decode j e h := by
    rw [ofJson?] at h
    split at h
    · cases h
      trivial
    · cases h
      trivial
    · obtain ⟨name, hname, rfl⟩ := (Symbol.lossless).fits_of_map h
      exact hname
    · obtain ⟨bounds, hbounds, rfl⟩ := (window_lossless).fits_of_map h
      exact hbounds
    · exact absurd h (by simp)
  decode_congr j j' halike := by
    cases halike with
    | same => rfl
    | payload hmem hpayload =>
      cases List.mem_singleton.mp hmem
      rw [ofJson?_subslice, ofJson?_subslice]
      exact (window_lossless).map_congr hpayload _

end Projection

namespace Place

def Fits (p : Place) : Prop := p.root.Fits ∧ ∀ e ∈ p.path, e.Fits

def Alike : Json → Json → Prop :=
  RecordAlike ["root", "projection"] [Required Eq, Required (ListAlike Projection.Alike)]

theorem components_lossless : components.Lossless (fun parts => parts.1.Fits ∧ ∀ e ∈ parts.2, e.Fits)
    [Required Eq, Required (ListAlike Projection.Alike)] :=
  .cons ((Symbol.lossless).required _) (.last ((Projection.lossless).list.required _))

theorem lossless : Lossless toJson ofJson? Fits Alike :=
  ((components_lossless).record (by decide)).via (fun _ => rfl) (fun _ => rfl)

end Place

/-! ## Components of operations -/

def ScopeId.Fits (id : ScopeId) : Prop := id.number < Json.limit32

theorem ScopeId.lossless : Lossless ScopeId.toJson ScopeId.ofJson? ScopeId.Fits Eq where
  decode_encode id hid := by
    rw [toJson, ofJson?, Json.natBelow?_nat hid]
    rfl
  fits_of_decode j id h := by
    obtain ⟨n, hn, rfl⟩ := Option.map_eq_some_iff.mp h
    exact Json.lt_of_natBelow? hn
  decode_congr _ _ := congrArg _

theorem PermSet.lossless : Lossless PermSet.toJson PermSet.ofJson? (fun _ => True) Eq where
  decode_encode perms _ := by
    have hlt : perms.bits.toNat < Json.limit8 := perms.bits.isLt
    rw [toJson, ofJson?, Json.natBelow?_nat hlt]
    simp
  fits_of_decode _ _ _ := trivial
  decode_congr _ _ := congrArg _

namespace TypeFacts

def Alike : Json → Json → Prop := RecordAlike ["is_owning", "is_trivially_duplicable"] [Required Eq, Required Eq]

theorem components_lossless : components.Lossless (fun _ => True ∧ True) [Required Eq, Required Eq] :=
  .cons ((Lossless.bool).required _) (.last ((Lossless.bool).required _))

theorem lossless : Lossless toJson ofJson? (fun _ => True) Alike :=
  (((components_lossless).record (by decide)).via (fun _ => rfl) (fun _ => rfl)).congr_fits fun _ => and_self_iff

end TypeFacts

theorem BorrowKind.lossless : Lossless BorrowKind.toJson BorrowKind.ofJson? (fun _ => True) Eq where
  decode_encode kind _ := by
    cases kind with
    | shared => rfl
    | exclusive => rfl
  fits_of_decode _ _ _ := trivial
  decode_congr _ _ := congrArg _

namespace Region

def Fits : Region → Prop
  | .span start stop => start < Json.limit64 ∧ stop < Json.limit64
  | .scope id => id.Fits

def SpanAlike : Json → Json → Prop := FieldsAlike ["start", "end"] [Required Eq, Required Eq]

def Alike : Json → Json → Prop := VariantAlike [("Span", SpanAlike)]

theorem bounds_lossless : Lossless bounds.toJson bounds.ofFields?
    (fun parts => parts.1 < Json.limit64 ∧ parts.2 < Json.limit64) SpanAlike :=
  (Components.Lossless.cons ((Lossless.nat _).required _) (.last ((Lossless.nat _).required _))).fields (by decide)

theorem ofJson?_span (j : Json) :
    ofJson? (.tagged "Span" j) = (bounds.ofFields? j).map fun (start, stop) => .span start stop := rfl

theorem ofJson?_scope (j : Json) : ofJson? (.tagged "Scope" j) = (ScopeId.ofJson? j).map .scope := rfl

theorem lossless : Lossless toJson ofJson? Fits Alike where
  decode_encode region hregion := by
    cases region with
    | span start stop =>
      rw [toJson, ofJson?_span]
      exact (bounds_lossless).read_map (a := (start, stop)) hregion _
    | scope id => rw [toJson, ofJson?_scope, (ScopeId.lossless).decode_encode id hregion, Option.map_some]
  fits_of_decode j region h := by
    rw [ofJson?] at h
    split at h
    · obtain ⟨parts, hparts, rfl⟩ := (bounds_lossless).fits_of_map h
      exact hparts
    · obtain ⟨id, hid, rfl⟩ := (ScopeId.lossless).fits_of_map h
      exact hid
    · exact absurd h (by simp)
  decode_congr j j' halike := by
    cases halike with
    | same => rfl
    | payload hmem hpayload =>
      cases List.mem_singleton.mp hmem
      rw [ofJson?_span, ofJson?_span]
      exact (bounds_lossless).map_congr hpayload _

end Region

namespace Init

def Fits : Init → Prop
  | .fresh => True
  | .move source | .copy source => source.Fits

def Alike : Json → Json → Prop := VariantAlike [("Move", Place.Alike), ("Copy", Place.Alike)]

theorem ofJson?_move (j : Json) : ofJson? (.tagged "Move" j) = (Place.ofJson? j).map .move := by
  cases j <;> rfl

theorem ofJson?_copy (j : Json) : ofJson? (.tagged "Copy" j) = (Place.ofJson? j).map .copy := by
  cases j <;> rfl

theorem lossless : Lossless toJson ofJson? Fits Alike where
  decode_encode init hinit := by
    cases init with
    | fresh => rfl
    | move source => rw [toJson, ofJson?_move, (Place.lossless).decode_encode source hinit, Option.map_some]
    | copy source => rw [toJson, ofJson?_copy, (Place.lossless).decode_encode source hinit, Option.map_some]
  fits_of_decode j init h := by
    rw [ofJson?] at h
    split at h
    · cases h
      trivial
    · obtain ⟨source, hsource, rfl⟩ := (Place.lossless).fits_of_map h
      exact hsource
    · obtain ⟨source, hsource, rfl⟩ := (Place.lossless).fits_of_map h
      exact hsource
    · exact absurd h (by simp)
  decode_congr j j' halike := by
    cases halike with
    | same => rfl
    | payload hmem hpayload =>
      simp only [List.mem_cons, Prod.mk.injEq, List.not_mem_nil, or_false] at hmem
      rcases hmem with ⟨rfl, rfl⟩ | ⟨rfl, rfl⟩
      · rw [ofJson?_move, ofJson?_move, (Place.lossless).decode_congr _ _ hpayload]
      · rw [ofJson?_copy, ofJson?_copy, (Place.lossless).decode_congr _ _ hpayload]

end Init

/-! ## Operations -/

namespace Operation

def Fits : Operation → Prop
  | .scopeBegin id | .scopeEnd id => id.Fits
  | .bind place init _ _ _ => place.Fits ∧ init.Fits
  | .project place _ => place.Fits
  | .move place | .copy place | .mutate place | .drop place | .unchecked place => place.Fits
  | .borrow source _ holder region => source.Fits ∧ holder.Fits ∧ region.Fits
  | .access place _ => place.Fits
  | .release holder => holder.Fits
  | .split array boundary => array.Fits ∧ boundary < Json.limit64

def BindAlike : Json → Json → Prop :=
  FieldsAlike ["place", "init", "mutable", "perms", "facts"]
    [Required Place.Alike, Required Init.Alike, Required Eq, Required Eq, Required TypeFacts.Alike]

def ProjectAlike : Json → Json → Prop :=
  FieldsAlike ["place", "facts"] [Required Place.Alike, Required TypeFacts.Alike]

def BorrowAlike : Json → Json → Prop :=
  FieldsAlike ["source", "kind", "holder", "region"]
    [Required Place.Alike, Required Eq, Required Place.Alike, Required Region.Alike]

def AccessAlike : Json → Json → Prop := FieldsAlike ["place", "needs"] [Required Place.Alike, Required Eq]

def SplitAlike : Json → Json → Prop := FieldsAlike ["array", "boundary"] [Required Place.Alike, Required Eq]

def Alike : Json → Json → Prop :=
  VariantAlike [("Bind", BindAlike), ("Project", ProjectAlike), ("Move", Place.Alike), ("Copy", Place.Alike),
    ("Borrow", BorrowAlike), ("Mutate", Place.Alike), ("Use", AccessAlike), ("Drop", Place.Alike),
    ("Release", Place.Alike), ("Split", SplitAlike), ("Unchecked", Place.Alike)]

variable {j j' : Json} {op : Operation}

theorem bind_lossless : Lossless bindComponents.toJson bindComponents.ofFields?
    (fun parts => parts.1.Fits ∧ parts.2.1.Fits) BindAlike :=
  ((Components.Lossless.cons ((Place.lossless).required _) <| .cons ((Init.lossless).required _) <|
    .cons ((Lossless.bool).required _) <| .cons ((PermSet.lossless).required _) <|
    .last ((TypeFacts.lossless).required _)).fields (by decide)).congr_fits fun _ => by simp only [and_true]

theorem project_lossless : Lossless projectComponents.toJson projectComponents.ofFields?
    (fun parts => parts.1.Fits) ProjectAlike :=
  ((Components.Lossless.cons ((Place.lossless).required _) <|
    .last ((TypeFacts.lossless).required _)).fields (by decide)).congr_fits fun _ => by simp only [and_true]

theorem borrow_lossless : Lossless borrowComponents.toJson borrowComponents.ofFields?
    (fun parts => parts.1.Fits ∧ parts.2.2.1.Fits ∧ parts.2.2.2.Fits) BorrowAlike :=
  ((Components.Lossless.cons ((Place.lossless).required _) <| .cons ((BorrowKind.lossless).required _) <|
    .cons ((Place.lossless).required _) <|
    .last ((Region.lossless).required _)).fields (by decide)).congr_fits fun _ => by simp only [true_and]

theorem access_lossless : Lossless accessComponents.toJson accessComponents.ofFields?
    (fun parts => parts.1.Fits) AccessAlike :=
  ((Components.Lossless.cons ((Place.lossless).required _) <|
    .last ((PermSet.lossless).required _)).fields (by decide)).congr_fits fun _ => by simp only [and_true]

theorem split_lossless : Lossless splitComponents.toJson splitComponents.ofFields?
    (fun parts => parts.1.Fits ∧ parts.2 < Json.limit64) SplitAlike :=
  (Components.Lossless.cons ((Place.lossless).required _) <| .last ((Lossless.nat _).required _)).fields (by decide)

theorem decode_encode_of_fits (hop : op.Fits) : ofJson? op.toJson = some op := by
  cases op with
  | scopeBegin id => exact (ScopeId.lossless).read_map hop scopeBegin
  | scopeEnd id => exact (ScopeId.lossless).read_map hop scopeEnd
  | bind place init mutable perms facts =>
    exact (bind_lossless).read_map (a := (place, init, mutable, perms, facts)) hop fun parts =>
      bind parts.1 parts.2.1 parts.2.2.1 parts.2.2.2.1 parts.2.2.2.2
  | project place facts =>
    exact (project_lossless).read_map (a := (place, facts)) hop fun parts => project parts.1 parts.2
  | borrow source kind holder region =>
    exact (borrow_lossless).read_map (a := (source, kind, holder, region)) hop fun parts =>
      borrow parts.1 parts.2.1 parts.2.2.1 parts.2.2.2
  | access place needs =>
    exact (access_lossless).read_map (a := (place, needs)) hop fun parts => access parts.1 parts.2
  | split array boundary =>
    exact (split_lossless).read_map (a := (array, boundary)) hop fun parts => split parts.1 parts.2
  | move place => exact (Place.lossless).read_map hop move
  | copy place => exact (Place.lossless).read_map hop copy
  | mutate place => exact (Place.lossless).read_map hop mutate
  | drop place => exact (Place.lossless).read_map hop drop
  | release holder => exact (Place.lossless).read_map hop release
  | unchecked place => exact (Place.lossless).read_map hop unchecked

theorem fits_of_ofJson? (h : ofJson? j = some op) : op.Fits := by
  rw [ofJson?] at h
  split at h
  next name payload _ =>
    split at h
    · obtain ⟨id, hid, rfl⟩ := (ScopeId.lossless).fits_of_map h
      exact hid
    · obtain ⟨id, hid, rfl⟩ := (ScopeId.lossless).fits_of_map h
      exact hid
    · obtain ⟨parts, hparts, rfl⟩ := (bind_lossless).fits_of_map h
      exact hparts
    · obtain ⟨parts, hparts, rfl⟩ := (project_lossless).fits_of_map h
      exact hparts
    · obtain ⟨place, hplace, rfl⟩ := (Place.lossless).fits_of_map h
      exact hplace
    · obtain ⟨place, hplace, rfl⟩ := (Place.lossless).fits_of_map h
      exact hplace
    · obtain ⟨parts, hparts, rfl⟩ := (borrow_lossless).fits_of_map h
      exact hparts
    · obtain ⟨place, hplace, rfl⟩ := (Place.lossless).fits_of_map h
      exact hplace
    · obtain ⟨parts, hparts, rfl⟩ := (access_lossless).fits_of_map h
      exact hparts
    · obtain ⟨place, hplace, rfl⟩ := (Place.lossless).fits_of_map h
      exact hplace
    · obtain ⟨holder, hholder, rfl⟩ := (Place.lossless).fits_of_map h
      exact hholder
    · obtain ⟨parts, hparts, rfl⟩ := (split_lossless).fits_of_map h
      exact hparts
    · obtain ⟨place, hplace, rfl⟩ := (Place.lossless).fits_of_map h
      exact hplace
    · exact absurd h (by simp)
  next => exact absurd h (by simp)

theorem ofJson?_congr (h : Alike j j') : ofJson? j = ofJson? j' := by
  cases h with
  | same => rfl
  | payload hmem hpayload =>
    simp only [List.mem_cons, Prod.mk.injEq, List.not_mem_nil, or_false] at hmem
    rcases hmem with ⟨rfl, rfl⟩ | ⟨rfl, rfl⟩ | ⟨rfl, rfl⟩ | ⟨rfl, rfl⟩ | ⟨rfl, rfl⟩ | ⟨rfl, rfl⟩ | ⟨rfl, rfl⟩ |
      ⟨rfl, rfl⟩ | ⟨rfl, rfl⟩ | ⟨rfl, rfl⟩ | ⟨rfl, rfl⟩
    · exact (bind_lossless).map_congr hpayload _
    · exact (project_lossless).map_congr hpayload _
    · exact (Place.lossless).map_congr hpayload move
    · exact (Place.lossless).map_congr hpayload copy
    · exact (borrow_lossless).map_congr hpayload _
    · exact (Place.lossless).map_congr hpayload mutate
    · exact (access_lossless).map_congr hpayload _
    · exact (Place.lossless).map_congr hpayload drop
    · exact (Place.lossless).map_congr hpayload release
    · exact (split_lossless).map_congr hpayload _
    · exact (Place.lossless).map_congr hpayload unchecked

theorem lossless : Lossless toJson ofJson? Fits Alike :=
  ⟨fun _ => decode_encode_of_fits, fun _ _ => fits_of_ofJson?, fun _ _ => ofJson?_congr⟩

end Operation

/-! ## Verdicts -/

namespace LoanInfo

def Fits (loan : LoanInfo) : Prop :=
  loan.id.number < Json.limit32 ∧ loan.source.Fits ∧ loan.holder.Fits ∧ loan.created < Json.limit64

def Alike : Json → Json → Prop :=
  RecordAlike ["id", "source", "kind", "holder", "created_at"]
    [Required Eq, Required Place.Alike, Required Eq, Required Place.Alike, Required Eq]

theorem components_lossless : components.Lossless
    (fun parts => parts.1 < Json.limit32 ∧ parts.2.1.Fits ∧ True ∧ parts.2.2.2.1.Fits ∧ parts.2.2.2.2 < Json.limit64)
    [Required Eq, Required Place.Alike, Required Eq, Required Place.Alike, Required Eq] :=
  .cons ((Lossless.nat _).required _) <| .cons ((Place.lossless).required _) <|
    .cons ((BorrowKind.lossless).required _) <| .cons ((Place.lossless).required _) <|
    .last ((Lossless.nat _).required _)

theorem lossless : Lossless toJson ofJson? Fits Alike :=
  (((components_lossless).record (by decide)).via (fun _ => rfl) (fun _ => rfl)).congr_fits fun loan => by
    rw [Fits, true_and]

end LoanInfo

theorem ViolationKind.lossless : Lossless ViolationKind.toJson ViolationKind.ofJson? (fun _ => True) Eq where
  decode_encode kind _ := by cases kind <;> rfl
  fits_of_decode _ _ _ := trivial
  decode_congr _ _ := congrArg _

namespace Violation

def Fits (v : Violation) : Prop :=
  (∀ p ∈ v.place, p.Fits) ∧ (∀ loan ∈ v.loan, loan.Fits) ∧ v.index < Json.limit64

def Alike : Json → Json → Prop :=
  RecordAlike ["kind", "place", "conflicting_loan", "operation_index"]
    [Required Eq, Optional Place.Alike, Optional LoanInfo.Alike, Required Eq]

theorem components_lossless : components.Lossless
    (fun parts => True ∧ (∀ p ∈ parts.2.1, p.Fits) ∧ (∀ loan ∈ parts.2.2.1, loan.Fits) ∧ parts.2.2.2 < Json.limit64)
    [Required Eq, Optional Place.Alike, Optional LoanInfo.Alike, Required Eq] :=
  .cons ((ViolationKind.lossless).required _) <|
    .cons ((Place.lossless).optional (fun _ h => Json.noConfusion h) _) <|
    .cons ((LoanInfo.lossless).optional (fun _ h => Json.noConfusion h) _) <|
    .last ((Lossless.nat _).required _)

theorem lossless : Lossless toJson ofJson? Fits Alike :=
  (((components_lossless).record (by decide)).via (fun _ => rfl) (fun _ => rfl)).congr_fits fun v => by
    rw [Fits, true_and]

end Violation

namespace Verdict

def Fits : Verdict → Prop
  | .ok | .unchecked => True
  | .violation v => v.Fits

def Alike : Json → Json → Prop := VariantAlike [("Violation", Violation.Alike)]

theorem ofJson?_violation (j : Json) : ofJson? (.tagged "Violation" j) = (Violation.ofJson? j).map .violation := by
  cases j <;> rfl

theorem lossless : Lossless toJson ofJson? Fits Alike where
  decode_encode verdict hverdict := by
    cases verdict with
    | ok => rfl
    | unchecked => rfl
    | violation v =>
      rw [toJson, ofJson?_violation]
      exact (Violation.lossless).read_map hverdict violation
  fits_of_decode j verdict h := by
    rw [ofJson?] at h
    split at h
    · cases h
      trivial
    · cases h
      trivial
    · obtain ⟨v, hv, rfl⟩ := (Violation.lossless).fits_of_map h
      exact hv
    · exact absurd h (by simp)
  decode_congr j j' halike := by
    cases halike with
    | same => rfl
    | payload hmem hpayload =>
      cases List.mem_singleton.mp hmem
      rw [ofJson?_violation, ofJson?_violation]
      exact (Violation.lossless).map_congr hpayload violation

end Verdict

/-! ## Streams -/

/-- **The wire form is lossless.** A list of operations or of verdicts is read back as it was written exactly if its
numbers fit the wire. What has been read from some input is written in one way, from which it is read again, and every
input that differs only in fields that nothing asks for and in absent components left out is written in the same way. -/
theorem wire_form_round_trips :
    (∀ ops, Operation.listOfJson? (Operation.listToJson ops) = some ops ↔ ∀ op ∈ ops, op.Fits) ∧
    (∀ verdicts, Verdict.listOfJson? (Verdict.listToJson verdicts) = some verdicts ↔ ∀ v ∈ verdicts, v.Fits) ∧
    (∀ j ops, Operation.listOfJson? j = some ops →
      Operation.listOfJson? (Operation.listToJson ops) = some ops ∧
      ∀ j', ListAlike Operation.Alike j j' →
        (Operation.listOfJson? j').map Operation.listToJson = some (Operation.listToJson ops)) ∧
    (∀ j verdicts, Verdict.listOfJson? j = some verdicts →
      Verdict.listOfJson? (Verdict.listToJson verdicts) = some verdicts ∧
      ∀ j', ListAlike Verdict.Alike j j' →
        (Verdict.listOfJson? j').map Verdict.listToJson = some (Verdict.listToJson verdicts)) := by
  have hops := (Operation.lossless).list
  have hverdicts := (Verdict.lossless).list
  refine ⟨fun ops => ⟨hops.fits_of_decode _ ops, hops.decode_encode ops⟩,
    fun verdicts => ⟨hverdicts.fits_of_decode _ verdicts, hverdicts.decode_encode verdicts⟩, ?_, ?_⟩
  · intro j ops hread
    exact ⟨hops.decode_encode ops (hops.fits_of_decode j ops hread), fun j' halike => hops.reencode hread halike⟩
  · intro j verdicts hread
    exact ⟨hverdicts.decode_encode verdicts (hverdicts.fits_of_decode j verdicts hread),
      fun j' halike => hverdicts.reencode hread halike⟩

/-- A move of the widest window there is, with the end of the window left out and with fields that nothing asks for. -/
theorem widest_window_with_surplus_fields :
    let window (fields : List (String × Json)) : Json :=
      .tagged "Subslice" (.obj (("from", .nat 18446744073709551615) :: fields))
    let stream (surplus fields : List (String × Json)) : Json :=
      .arr [.tagged "Move" (.obj (surplus ++ [("root", .nat 4294967295), ("projection", .arr [window fields])]))]
    let ops : List Operation := [.move ⟨⟨4294967294⟩, [.subslice 18446744073709551615 none]⟩]
    Operation.listOfJson? (stream [("note", .bool true)] []) = some ops ∧
    (Operation.listOfJson? (stream [] [("to", .null), ("step", .nat 2)])).map Operation.listToJson =
      some (Operation.listToJson ops) ∧
    Verdict.listOfJson? (.arr [.tagged "Violation" (.obj [("kind", .str "UnbalancedScope"), ("operation_index", .nat 7)])]) =
      some [.violation ⟨.unbalanced, 7⟩] ∧
    Verdict.listOfJson? (Verdict.listToJson [.violation ⟨.unbalanced, 7⟩]) = some [.violation ⟨.unbalanced, 7⟩] := by
  intro window stream ops
  obtain ⟨-, -, hops, hverdicts⟩ := wire_form_round_trips
  have hread : Operation.listOfJson? (stream [("note", .bool true)] []) = some ops := by rfl
  have hverdict : Verdict.listOfJson?
      (.arr [.tagged "Violation" (.obj [("kind", .str "UnbalancedScope"), ("operation_index", .nat 7)])]) =
      some [.violation ⟨.unbalanced, 7⟩] := by rfl
  have hbounds : Projection.WindowAlike (.obj [("from", .nat 18446744073709551615)])
      (.obj [("from", .nat 18446744073709551615), ("to", .null), ("step", .nat 2)]) :=
    FieldsAlike.fields (.cons (.present rfl) (.cons (.silent .missing .null) .nil))
  have hwindow : Projection.Alike (window []) (window [("to", .null), ("step", .nat 2)]) :=
    VariantAlike.payload List.mem_cons_self hbounds
  have hplace : Place.Alike
      (.obj [("note", .bool true), ("root", .nat 4294967295), ("projection", .arr [window []])])
      (.obj [("root", .nat 4294967295), ("projection", .arr [window [("to", .null), ("step", .nat 2)]])]) :=
    RecordAlike.fields (.fields (.cons (.present rfl) (.cons (.present (.items (.cons hwindow .nil))) .nil)))
  have hstream : ListAlike Operation.Alike (stream [("note", .bool true)] [])
      (stream [] [("to", .null), ("step", .nat 2)]) :=
    ListAlike.items (.cons (VariantAlike.payload (by simp) hplace) .nil)
  exact ⟨hread, (hops _ ops hread).2 _ hstream, hverdict, (hverdicts _ _ hverdict).1⟩

end BorrowChecker
