import BorrowChecker.Proofs.Pairing
import BorrowChecker.Session.Step
import Mathlib.Data.List.Infix
import Mathlib.Tactic.Simps.Basic

/-!
# Renamings

A renaming gives the variables and fields new names and the scopes new numbers, without making two of them one. It acts on
everything that names occur in. What the rules ask about places, loans, splits and scopes is whether names are the same
and in which order things were made, so the answers are renamed with the questions.
-/

namespace BorrowChecker

/-- New names for variables and fields, and new numbers for scopes. Different ones stay different, and the outermost scope
stays what it is. -/
structure Renaming where
  symbol : Symbol → Symbol
  scope : ScopeId → ScopeId
  symbol_injective : Function.Injective symbol
  scope_injective : Function.Injective scope
  scope_root : scope .root = .root

variable (ν : Renaming)

namespace Renaming

@[simp] theorem symbol_inj {x y : Symbol} : ν.symbol x = ν.symbol y ↔ x = y := ν.symbol_injective.eq_iff

@[simp] theorem scope_inj {a b : ScopeId} : ν.scope a = ν.scope b ↔ a = b := ν.scope_injective.eq_iff

@[simp] theorem symbol_beq (x y : Symbol) : (ν.symbol x == ν.symbol y) = (x == y) := by
  rw [Bool.eq_iff_iff, beq_iff_eq, beq_iff_eq, symbol_inj]

@[simp] theorem scope_beq (a b : ScopeId) : (ν.scope a == ν.scope b) = (a == b) := by
  rw [Bool.eq_iff_iff, beq_iff_eq, beq_iff_eq, scope_inj]

@[simp] theorem scope_eq_root_iff {id : ScopeId} : ν.scope id = .root ↔ id = .root := by
  constructor
  · intro h
    exact ν.scope_injective (h.trans ν.scope_root.symm)
  · rintro rfl
    exact ν.scope_root

end Renaming

/-! ## What names occur in -/

def Projection.rename : Projection → Projection
  | .field name => .field (ν.symbol name)
  | .index => .index
  | .deref => .deref
  | .subslice lo hi => .subslice lo hi

@[simps] def Place.rename (p : Place) : Place := ⟨ν.symbol p.root, p.path.map (·.rename ν)⟩

@[simps] def Place.Window.rename (w : Window) : Window := { w with array := w.array.rename ν }

def Region.rename : Region → Region
  | .span start stop => .span start stop
  | .scope id => .scope (ν.scope id)

@[simps] def LoanRequest.rename (request : LoanRequest) : LoanRequest :=
  { request with
    source := request.source.rename ν
    holder := request.holder.rename ν
    region := request.region.rename ν }

@[simps] def Loan.rename (loan : Loan) : Loan :=
  { loan with
    source := loan.source.rename ν
    holder := loan.holder.rename ν
    region := loan.region.rename ν }

def LoanError.rename : LoanError → LoanError
  | .conflicting existing => .conflicting (existing.rename ν)
  | .outlives parent => .outlives (parent.rename ν)

@[simps] def LoanInfo.rename (info : LoanInfo) : LoanInfo :=
  { info with source := info.source.rename ν, holder := info.holder.rename ν }

@[simps] def Fault.rename (fault : Fault) : Fault :=
  ⟨fault.kind, fault.place.map (·.rename ν), fault.loan.map (·.rename ν)⟩

def Violation.rename (v : Violation) : Violation := { v.toFault.rename ν with index := v.index }

def Verdict.rename : Verdict → Verdict
  | .ok => .ok
  | .unchecked => .unchecked
  | .violation v => .violation (v.rename ν)

@[simps] def Split.rename (split : Split) : Split :=
  { split with array := split.array.rename ν, scope := ν.scope split.scope }

@[simps] def DeclareRequest.rename (request : DeclareRequest) : DeclareRequest :=
  { request with scope := ν.scope request.scope }

@[simps] def Declaration.rename (decl : Declaration) : Declaration :=
  { decl with name := ν.symbol decl.name, place := decl.place.rename ν, scope := ν.scope decl.scope }

@[simps] def OpenScope.rename (scope : OpenScope) : OpenScope := { scope with id := ν.scope scope.id }

def Init.rename : Init → Init
  | .fresh => .fresh
  | .move source => .move (source.rename ν)
  | .copy source => .copy (source.rename ν)

def Operation.rename : Operation → Operation
  | .scopeBegin id => .scopeBegin (ν.scope id)
  | .scopeEnd id => .scopeEnd (ν.scope id)
  | .bind place init mutable perms facts => .bind (place.rename ν) (init.rename ν) mutable perms facts
  | .project place facts => .project (place.rename ν) facts
  | .move place => .move (place.rename ν)
  | .copy place => .copy (place.rename ν)
  | .borrow source kind holder region => .borrow (source.rename ν) kind (holder.rename ν) (region.rename ν)
  | .mutate place => .mutate (place.rename ν)
  | .access place needs => .access (place.rename ν) needs
  | .drop place => .drop (place.rename ν)
  | .release holder => .release (holder.rename ν)
  | .split array boundary => .split (array.rename ν) boundary
  | .unchecked place => .unchecked (place.rename ν)

@[simps] def Ledger.rename (ledger : Ledger) : Ledger := { ledger with loans := ledger.loans.map (·.rename ν) }

@[simps] def Splits.rename (splits : Splits) : Splits := ⟨splits.records.map (·.rename ν)⟩

/-! ## Places -/

namespace Projection

theorem rename_injective : Function.Injective (rename ν) := by
  intro e f h
  cases e <;> cases f <;> simp_all [rename]

@[simp] theorem disjoint_rename (e f : Projection) : (e.rename ν).disjoint (f.rename ν) = e.disjoint f := by
  cases e <;> cases f <;> simp [rename, disjoint, bne]

end Projection

namespace Place

theorem rename_injective : Function.Injective (rename ν) := by
  intro p q h
  obtain ⟨hroot, hpath⟩ := Place.mk.inj h
  have hpath := (Projection.rename_injective ν).list_map hpath
  rw [ν.symbol_inj] at hroot
  cases p
  cases q
  simp_all

@[simp] theorem rename_inj {p q : Place} : p.rename ν = q.rename ν ↔ p = q := (rename_injective ν).eq_iff

@[simp] theorem rename_beq (p q : Place) : (p.rename ν == q.rename ν) = (p == q) := by
  rw [Bool.eq_iff_iff, beq_iff_eq, beq_iff_eq, rename_inj]

@[simp] theorem isVar_rename (p : Place) : (p.rename ν).isVar = p.isVar := by simp [isVar]

@[simp] theorem isPrefixOf_rename (p q : Place) : (p.rename ν).isPrefixOf (q.rename ν) = p.isPrefixOf q := by
  rw [Bool.eq_iff_iff, isPrefixOf_iff, isPrefixOf_iff]
  simp [List.prefix_map_iff_of_injective (Projection.rename_injective ν)]

@[simp] theorem overlaps_rename (p q : Place) : (p.rename ν).overlaps (q.rename ν) = p.overlaps q := by
  simp [overlaps, List.zip_map, Function.comp_def]

theorem truncate_rename (p : Place) (n : Nat) : (p.rename ν).truncate n = (p.truncate n).rename ν := by
  simp [truncate, rename]

theorem ancestors_rename (p : Place) : (p.rename ν).ancestors = p.ancestors.map (·.rename ν) := by
  simp [ancestors, truncate_rename]

theorem windows_rename (p : Place) : (p.rename ν).windows = p.windows.map (·.rename ν) := by
  simp only [windows, rename_path, List.zipIdx_map, List.filterMap_map, List.map_filterMap]
  congr 1
  funext ⟨e, n⟩
  cases e <;> simp [Projection.rename, truncate_rename, Window.rename]

end Place

/-! ## Loans and splits -/

@[simp] theorem Region.rename_eq_scope_iff {region : Region} {id : ScopeId} :
    region.rename ν = .scope (ν.scope id) ↔ region = .scope id := by
  cases region <;> simp [rename]

namespace Ledger

variable (ledger : Ledger)

theorem overlapping_rename (p : Place) :
    (ledger.rename ν).overlapping (p.rename ν) = (ledger.overlapping p).map (·.rename ν) := by
  simp [overlapping, List.filter_map, Function.comp_def]

theorem parents_rename (p : Place) : (ledger.rename ν).parents (p.rename ν) = (ledger.parents p).map (·.rename ν) := by
  simp [parents, List.filter_map, Function.comp_def]

theorem obstacle?_rename (p : Place) (kind : BorrowKind) :
    (ledger.rename ν).obstacle? (p.rename ν) kind = (ledger.obstacle? p kind).map (·.rename ν) := by
  rw [obstacle?, obstacle?, overlapping_rename, List.find?_map]
  rfl

theorem suspended_rename (p : Place) : (ledger.rename ν).suspended (p.rename ν) = ledger.suspended p := by
  simp [suspended, overlapping_rename, List.foldl_map]

theorem blocking?_rename (p : Place) (needs : PermSet) :
    (ledger.rename ν).blocking? (p.rename ν) needs = (ledger.blocking? p needs).map (·.rename ν) := by
  simp [blocking?, overlapping_rename, List.filter_map, Function.comp_def]

/-- A renamed loan is lent or refused like the loan itself, and gets the same number. -/
theorem borrow_rename (request : LoanRequest) (nesting : Nesting) :
    (ledger.rename ν).borrow (request.rename ν) nesting =
      ((ledger.borrow request nesting).map fun result => (result.1, result.2.rename ν)).mapError (·.rename ν) := by
  rw [borrow, borrow, LoanRequest.rename_source, LoanRequest.rename_kind, obstacle?_rename, parents_rename,
    List.find?_map]
  cases ledger.obstacle? request.source request.kind with
  | some existing => rfl
  | none =>
    simp only [Option.map_none, LoanRequest.rename_stop, Function.comp_def, Loan.rename_stop]
    cases (ledger.parents request.source).find? (!nesting.nests request.stop ·.stop) with
    | some parent => rfl
    | none => simp [Except.map, Except.mapError, rename, Loan.rename, LoanRequest.rename]

theorem releaseWhere_rename {gone gone' : Loan → Bool} (h : ∀ loan : Loan, gone' (loan.rename ν) = gone loan) :
    ((ledger.rename ν).releaseWhere gone').2 = (ledger.releaseWhere gone).2.rename ν := by
  simp [releaseWhere_eq, rename, List.filter_map, Function.comp_def, h]

theorem get?_rename (id : LoanId) : (ledger.rename ν).get? id = (ledger.get? id).map (·.rename ν) := by
  rw [get?, get?, rename_loans, List.find?_map]
  rfl

theorem release_rename (id : LoanId) : ((ledger.rename ν).release id).2 = (ledger.release id).2.rename ν := by
  simp [release, rename, List.eraseP_map, Function.comp_def]

theorem expire_rename (now : Nat) : ((ledger.rename ν).expire now).2 = (ledger.expire now).2.rename ν := by
  refine releaseWhere_rename ν ledger fun loan => ?_
  rw [expired, expired, Loan.rename_region]
  cases loan.region <;> rfl

theorem releaseScope_rename (id : ScopeId) :
    ((ledger.rename ν).releaseScope (ν.scope id)).2 = (ledger.releaseScope id).2.rename ν := by
  refine releaseWhere_rename ν ledger fun loan => ?_
  rw [Bool.eq_iff_iff]
  simp

theorem releaseHeldBy_rename (holder : Place) :
    ((ledger.rename ν).releaseHeldBy (holder.rename ν)).2 = (ledger.releaseHeldBy holder).2.rename ν := by
  -- loans keep their numbers, so the same ones are listed
  have hids : (ledger.rename ν).heldIds (holder.rename ν) = ledger.heldIds holder := by
    simp [heldIds, List.filter_map, Function.comp_def]
  rw [releaseHeldBy, releaseHeldBy, hids]
  exact releaseWhere_rename ν ledger fun loan => rfl

theorem lentIds_rename (p : Place) : (ledger.rename ν).lentIds (p.rename ν) = ledger.lentIds p := by
  simp [lentIds, overlapping_rename]

theorem releaseEach_rename (ids : List LoanId) :
    (ledger.rename ν).releaseEach ids = (ledger.releaseEach ids).rename ν := by
  induction ids generalizing ledger with
  | nil => rfl
  | cons id ids ih =>
    rw [releaseEach, List.foldl_cons, release_rename]
    exact ih (ledger.release id).2

theorem transfer_rename (source target : Place) :
    ((ledger.rename ν).transfer (source.rename ν) (target.rename ν)).2 = (ledger.transfer source target).2.rename ν := by
  simp only [transfer, rename, List.map_map]
  congr 2
  funext loan
  by_cases hholder : loan.holder = source <;> simp [hholder, Loan.rename]

end Ledger

namespace Splits

variable (splits : Splits)

theorem has_rename (w : Place.Window) : (splits.rename ν).has (w.rename ν) = splits.has w := by
  simp [has, Function.comp_def]

theorem insert_rename (split : Split) : (splits.rename ν).insert (split.rename ν) = (splits.insert split).rename ν := by
  have hknown : ((splits.rename ν).records.any fun s => s.array == (split.rename ν).array && s.boundary == split.boundary) =
      splits.records.any fun s => s.array == split.array && s.boundary == split.boundary := by
    simp [Function.comp_def]
  rw [insert, insert, Split.rename_boundary, hknown]
  split
  · rfl
  · simp [rename]

theorem discard_rename (scope : ScopeId) : (splits.rename ν).discard (ν.scope scope) = (splits.discard scope).rename ν := by
  simp [discard, rename, List.filter_map, Function.comp_def, bne]

end Splits

/-! ## Faults -/

theorem Loan.info_rename (loan : Loan) : (loan.rename ν).info = loan.info.rename ν := rfl

theorem Fault.rename_about (kind : ViolationKind) (p : Place) (loan : Option Loan) :
    (Fault.about kind p loan).rename ν = .about kind (p.rename ν) (loan.map (·.rename ν)) := by
  simp [rename, about, Loan.info_rename, Function.comp_def]

theorem LoanError.fault_rename (e : LoanError) (source : Place) :
    (e.rename ν).fault (source.rename ν) = (e.fault source).rename ν := by
  cases e <;> rfl

/-! ## Scopes -/

namespace Scope

variable (opened : List (ScopeId × Nat)) (i : Nat)

theorem closes_top_rename (top : ScopeId) :
    (opened.map (Prod.map ν.scope id)).head?.any (·.1 == ν.scope top) = opened.head?.any (·.1 == top) := by
  cases opened <;> simp

theorem advance_rename (op : Operation) :
    advance (opened.map (Prod.map ν.scope id)) i (op.rename ν) = (advance opened i op).map (Prod.map ν.scope id) := by
  cases op with
  | scopeEnd top =>
    rw [Operation.rename, advance, advance, closes_top_rename]
    split
    · rw [List.map_tail]
    · rfl
  | _ => rfl

theorem completed_rename (op : Operation) :
    completed (opened.map (Prod.map ν.scope id)) i (op.rename ν) = completed opened i op := by
  cases op with
  | scopeEnd top =>
    rw [Operation.rename, completed, completed, closes_top_rename]
    cases opened <;> rfl
  | _ => rfl

/-- The pairing goes by which numbers of scopes are the same. -/
theorem pairsFrom_rename (ops : List Operation) :
    pairsFrom (opened.map (Prod.map ν.scope id)) i (ops.map (·.rename ν)) = pairsFrom opened i ops := by
  induction ops generalizing opened i with
  | nil => rfl
  | cons op ops ih => rw [List.map_cons, pairsFrom_cons, pairsFrom_cons, advance_rename, completed_rename, ih]

theorem pairs_rename (ops : List Operation) : pairs i (ops.map (·.rename ν)) = pairs i ops :=
  pairsFrom_rename ν [] i ops

end Scope

end BorrowChecker
