import BorrowChecker.Proofs.Equivariance
import BorrowChecker.Proofs.Scoping

/-!
# Leaving a scope

Closing the innermost scope releases loans in three waves, forgets the splits of the scope, and ends the lives of its
variables one by one, the latest first, each with the loans that are left on it. All of it together is told in terms of
the session before (`scope_exit`). When the variables die, no loan is held by one of them any more, so the end of one
variable takes no loan off another, and the fault that is reported is read off the loans as they were when the first of
them died (`Registry.fst_buryAll`).
-/

namespace BorrowChecker

theorem findSome?_congr {α β : Type} {f g : α → Option β} {l : List α} (h : ∀ a ∈ l, f a = g a) :
    l.findSome? f = l.findSome? g := by
  induction l with
  | nil => rfl
  | cons a l ih =>
    rw [List.findSome?_cons, List.findSome?_cons, h a List.mem_cons_self, ih fun b hb => h b (List.mem_cons_of_mem _ hb)]

/-! ## One declaration per variable -/

namespace Store

/-- No variable is listed twice among the declarations. -/
def Distinct (store : Store) : Prop := (store.decls.map (·.name)).Nodup

namespace Distinct

variable {store store' : Store} {x : Symbol} {decl : Declaration}

theorem find?_eq_some_iff (h : store.Distinct) : store.find? x = some decl ↔ decl ∈ store.decls ∧ decl.name = x := by
  constructor
  · intro hfind
    exact ⟨List.mem_of_find?_eq_some hfind, by simpa using List.find?_some hfind⟩
  · rintro ⟨hdecl, rfl⟩
    cases hfind : store.find? decl.name with
    | none => exact absurd (List.find?_eq_none.mp hfind decl hdecl) (by simp)
    | some other =>
      have hname : other.name = decl.name := by simpa using List.find?_some hfind
      rw [List.inj_on_of_nodup_map h (List.mem_of_find?_eq_some hfind) hdecl hname]

theorem update (h : store.Distinct) (x : Symbol) {f : Declaration → Declaration}
    (hf : ∀ decl, (f decl).name = decl.name) : (store.update x f).Distinct := by
  rw [Distinct, map_decls_update hf]
  exact h

theorem retire (h : store.Distinct) (p : Place) : (store.retire p).Distinct := by
  rw [Store.retire]
  split
  · exact h.update p.root fun _ => rfl
  · exact h

theorem declare (h : store.Distinct) {p : Place} {request : DeclareRequest}
    (hstore : store.declare p request = .ok store') : store'.Distinct := by
  rcases declare_eq_ok_iff.mp hstore with ⟨-, hvar⟩ | ⟨-, hpart⟩
  · obtain ⟨-, rfl⟩ := declareVar_eq_ok_iff.mp hvar
    have hothers : p.root ∉ (store.decls.filter (·.name != p.root)).map (·.name) := by
      intro hmem
      obtain ⟨decl, hdecl, hname⟩ := List.mem_map.mp hmem
      exact bne_iff_ne.mp (List.mem_filter.mp hdecl).2 hname
    rw [Distinct, List.map_append, List.map_singleton, ← List.concat_eq_append]
    exact List.Nodup.concat hothers (h.sublist (List.filter_sublist.map _))
  · obtain ⟨-, -, -, rfl⟩ := reinitialise_eq_ok_iff.mp hpart
    exact h

theorem change {declared : Place → Prop} {r r' : Registry} (hchange : Registry.Change declared r r')
    (h : r.store.Distinct) : r'.store.Distinct := by
  cases hchange with
  | declare _ hstore => exact h.declare hstore
  | describe hstore =>
    obtain ⟨-, rfl⟩ := registerFacts_eq_ok_iff.mp hstore
    exact h
  | assign hstore =>
    obtain ⟨-, rfl⟩ := assignHolder_eq_ok_iff.mp hstore
    exact h.update _ fun _ => rfl
  | retire => exact h.retire _
  | _ => exact h

end Distinct

/-- Whole variables that are moved out one after the other are dead, and nothing else changes about any variable. -/
theorem find?_foldl_retire {ps : List Place} (hvars : ∀ p ∈ ps, p.isVar = true) (store : Store) (x : Symbol) :
    (ps.foldl Store.retire store).find? x =
      (store.find? x).map fun decl => if ps.any (·.root == x) then { decl with live := false } else decl := by
  induction ps generalizing store with
  | nil => simp
  | cons p ps ih =>
    have hretire : (store.retire p).find? x =
        (store.find? x).map fun decl => if p.root == x then { decl with live := false } else decl := by
      rw [Store.retire, if_pos (hvars p List.mem_cons_self)]
      by_cases hx : x = p.root
      · subst hx
        rw [find?_update_self, beq_self_eq_true]
        · rfl
        · exact fun _ => rfl
      · rw [find?_update_of_ne _ hx, beq_eq_false_iff_ne.mpr (Ne.symm hx)]
        · simp
        · exact fun _ => rfl
    rw [List.foldl_cons, ih (fun q hq => hvars q (List.mem_cons_of_mem _ hq)), hretire, Option.map_map, List.any_cons]
    congr 1
    funext decl
    cases p.root == x <;> cases ps.any (·.root == x) <;> rfl

end Store

/-- The list of declarations is in order: no variable is listed twice, and each under its own name. -/
structure Store.Listed (store : Store) : Prop where
  distinct : store.Distinct
  placed : store.Placed

theorem Session.Reachable.listed {config : Config} {s : Session} (h : Reachable config s) : s.store.Listed where
  distinct := Later.invariant (P := fun r => r.store.Distinct) (fun _ _ _ _ _ hchange => Store.Distinct.change hchange) h
    List.nodup_nil
  placed := h.placed

/-! ## Burials -/

namespace Registry

variable {r : Registry} {ps : List Place}

theorem store_buryAll (r : Registry) (ps : List Place) : (r.buryAll ps).2.store = ps.foldl Store.retire r.store := by
  induction ps generalizing r with
  | nil => rfl
  | cons p ps ih => exact (ih (r.bury p).2).trans (by rw [store_bury]; rfl)

/-- The fault that a loan on `p` is when `p` dies: the oldest of them is to blame. -/
def lentFault? (r : Registry) (p : Place) : Option Fault :=
  (r.ledger.overlapping p).head?.map fun loan => .about .loanOutlivesSource p (some loan)

/-- The end of one variable leaves the loans on another, if it holds none of them. -/
theorem overlapping_bury (h : r.ledger.Disciplined) {p q : Place} (hp : p.isVar = true) (hq : q.isVar = true)
    (hne : p.root ≠ q.root) (hfree : ∀ loan ∈ r.ledger.loans, p.isPrefixOf loan.holder = false) :
    (r.bury p).2.ledger.overlapping q = r.ledger.overlapping q := by
  rw [Ledger.overlapping, Ledger.overlapping, loans_bury h, List.filter_filter]
  refine List.filter_congr fun loan hloan => ?_
  rw [hfree loan hloan, Bool.not_false, Bool.and_true, Place.overlaps_comm, Place.overlaps_of_isVar hq,
    Place.overlaps_comm, Place.overlaps_of_isVar hp]
  by_cases hroot : q.root = loan.source.root
  · have hother : p.root ≠ loan.source.root := fun h => hne (h.trans hroot.symm)
    rw [beq_eq_false_iff_ne.mpr hother, Bool.not_false, Bool.and_true]
  · rw [beq_eq_false_iff_ne.mpr hroot, Bool.false_and]

/-- Of different variables that hold no loans, the first on which there is a loan is at fault. -/
theorem fst_buryAll (h : r.ledger.Disciplined) (hvars : ∀ p ∈ ps, p.isVar = true) (hdistinct : (ps.map (·.root)).Nodup)
    (hfree : ∀ p ∈ ps, ∀ loan ∈ r.ledger.loans, p.isPrefixOf loan.holder = false) :
    (r.buryAll ps).1 = ps.findSome? r.lentFault? := by
  induction ps generalizing r with
  | nil => rfl
  | cons p ps ih =>
    obtain ⟨hfresh, hdistinct⟩ := List.nodup_cons.mp hdistinct
    have hfirst : (r.buryAll (p :: ps)).1 = (r.lentFault? p <|> ((r.bury p).2.buryAll ps).1) := by
      rw [lentFault?, ← h.get?_head_lentIds]
      rfl
    have hfree' : ∀ q ∈ ps, ∀ loan ∈ (r.bury p).2.ledger.loans, q.isPrefixOf loan.holder = false := by
      intro q hq loan hloan
      rw [loans_bury h] at hloan
      exact hfree q (List.mem_cons_of_mem _ hq) loan (List.mem_of_mem_filter hloan)
    have hvars' : ∀ q ∈ ps, q.isVar = true := fun q hq => hvars q (List.mem_cons_of_mem _ hq)
    have hlater : ∀ q ∈ ps, (r.bury p).2.lentFault? q = r.lentFault? q := by
      intro q hq
      have hne : p.root ≠ q.root := fun h => hfresh (List.mem_map.mpr ⟨q, hq, h.symm⟩)
      rw [lentFault?, lentFault?, overlapping_bury h (hvars p List.mem_cons_self) (hvars' q hq) hne
        (hfree p List.mem_cons_self)]
    rw [hfirst, ih (disciplined_bury h p) hvars' hdistinct hfree', findSome?_congr hlater, List.findSome?_cons]
    cases r.lentFault? p <;> rfl

end Registry

namespace Session

variable {config : Config} {s : Session} {id : ScopeId}

/-! ## The variables of a scope -/

/-- Whether the variable dies with the scope: it is alive and was declared there. -/
def diesWith (s : Session) (id : ScopeId) (x : Symbol) : Bool :=
  (s.store.find? x).any fun decl => decl.live && decl.scope == id

theorem diesWith_iff {x : Symbol} :
    s.diesWith id x = true ↔ ∃ decl, s.store.find? x = some decl ∧ decl.live = true ∧ decl.scope = id := by
  rw [diesWith, Option.any_eq_true]
  simp

theorem mem_liveIn_iff {store : Store} {decl : Declaration} :
    decl ∈ store.liveIn id ↔ decl ∈ store.decls ∧ decl.live = true ∧ decl.scope = id := by
  simp [Store.liveIn]

theorem any_dying_eq (h : s.store.Listed) (x : Symbol) : (s.dying id).any (·.root == x) = s.diesWith id x := by
  rw [Bool.eq_iff_iff, List.any_eq_true, diesWith_iff]
  constructor
  · rintro ⟨p, hp, hx⟩
    obtain ⟨decl, hdecl, rfl⟩ := List.mem_map.mp hp
    obtain ⟨hmem, hlive, hscope⟩ := mem_liveIn_iff.mp hdecl
    rw [h.placed decl hmem] at hx
    exact ⟨decl, h.distinct.find?_eq_some_iff.mpr ⟨hmem, eq_of_beq hx⟩, hlive, hscope⟩
  · rintro ⟨decl, hfind, hlive, hscope⟩
    obtain ⟨hmem, hname⟩ := h.distinct.find?_eq_some_iff.mp hfind
    refine ⟨decl.place, List.mem_map_of_mem (mem_liveIn_iff.mpr ⟨hmem, hlive, hscope⟩), ?_⟩
    rw [h.placed decl hmem]
    exact beq_iff_eq.mpr hname

/-- A loan is left when the scope closes if it is not tied to it, and no variable that dies holds or lends it. -/
theorem outlasts_eq (h : s.store.Listed) (loan : Loan) :
    s.outlasts id loan =
      (loan.region != .scope id && !s.diesWith id loan.holder.root && !s.diesWith id loan.source.root) := by
  rw [← any_dying_eq h, ← any_dying_eq h, Bool.eq_iff_iff, outlasts_iff]
  simp only [Bool.and_eq_true, bne_iff_ne, Bool.not_eq_true', List.any_eq_false, beq_iff_eq]
  constructor
  · rintro ⟨hregion, hall⟩
    exact ⟨⟨hregion, fun p hp => (hall p hp).2⟩, fun p hp => (hall p hp).1⟩
  · rintro ⟨⟨hregion, hholder⟩, hsource⟩
    exact ⟨hregion, fun p hp => ⟨hsource p hp, hholder p hp⟩⟩

/-! ## Loans that outlive what they lend -/

/-- Whether the loan would outlive what it lends: it is neither tied to the scope nor held by a variable that dies with
the scope, and it lends one that does. -/
def outlives (s : Session) (id : ScopeId) (loan : Loan) : Bool :=
  loan.region != .scope id && !s.diesWith id loan.holder.root && s.diesWith id loan.source.root

/-- The loans that would outlive a variable, the oldest first. -/
def outliving (s : Session) (id : ScopeId) (x : Symbol) : List Loan :=
  s.ledger.loans.filter fun loan => s.outlives id loan && loan.source.root == x

theorem mem_outliving_iff {x : Symbol} {loan : Loan} :
    loan ∈ s.outliving id x ↔ loan ∈ s.ledger.loans ∧ s.outlives id loan = true ∧ loan.source.root = x := by
  rw [outliving, List.mem_filter, Bool.and_eq_true, beq_iff_eq]

/-- Closing the scope is reported for this variable and this loan: of all variables that die although a loan on them
would live on, the one that was declared last, and of all such loans on it, the oldest. -/
structure Blames (s : Session) (id : ScopeId) (decl : Declaration) (loan : Loan) : Prop where
  declared : s.store.find? loan.source.root = some decl
  lent : loan ∈ s.ledger.loans
  outlives : s.outlives id loan = true
  latest : ∀ other ∈ s.ledger.loans, s.outlives id other = true →
    ∀ decl', s.store.find? other.source.root = some decl' → decl'.order ≤ decl.order
  oldest : ∀ other ∈ s.ledger.loans, s.outlives id other = true →
    other.source.root = loan.source.root → loan.id.number ≤ other.id.number

theorem all_dying_eq (h : s.store.Listed) (p : Place) :
    (s.dying id).all (!·.isPrefixOf p) = !s.diesWith id p.root := by
  rw [← any_dying_eq h, List.not_any_eq_all_not, Bool.eq_iff_iff, List.all_eq_true, List.all_eq_true]
  refine forall₂_congr fun q hq => ?_
  rw [Place.isPrefixOf_eq_of_isVar (isVar_of_mem_dying h.placed hq)]

/-- When the first of the variables dies, the loans on each of them are those that would outlive it. -/
theorem overlapping_unwound (h : s.store.Listed) (hledger : s.ledger.Disciplined) {p : Place} (hp : p ∈ s.dying id) :
    (s.unwound id).ledger.overlapping p = s.outliving id p.root := by
  have hdies : s.diesWith id p.root = true := by
    rw [← any_dying_eq h]
    exact List.any_eq_true.mpr ⟨p, hp, beq_self_eq_true _⟩
  rw [Ledger.overlapping, loans_unwound hledger, List.filter_filter, outliving]
  refine List.filter_congr fun loan _ => ?_
  rw [all_dying_eq h, outlives, Place.overlaps_comm, Place.overlaps_of_isVar (isVar_of_mem_dying h.placed hp), BEq.comm]
  by_cases hroot : loan.source.root = p.root
  · rw [hroot, hdies, beq_self_eq_true, Bool.and_true, Bool.and_true, Bool.true_and]
  · rw [beq_eq_false_iff_ne.mpr hroot, Bool.false_and, Bool.and_false]

/-- The fault when a scope closes: the variables are gone through from the latest on, and the oldest loan that would
outlive one is to blame. -/
theorem fst_endScope (h : s.store.Listed) (hledger : s.ledger.Disciplined) (hcloses : s.closes id = true) :
    (s.endScope id).1 = (s.store.liveIn id).findSome? fun decl =>
      (s.outliving id decl.name).head?.map fun loan => .about .loanOutlivesSource (.var decl.name) (some loan) := by
  have hnames : (s.dying id).map (·.root) = (s.store.liveIn id).map (·.name) := by
    rw [dying, List.map_map]
    refine List.map_congr_left fun decl hdecl => ?_
    rw [Function.comp_apply, h.placed decl (mem_liveIn_iff.mp hdecl).1]
    rfl
  have hdistinct : ((s.dying id).map (·.root)).Nodup := by
    rw [hnames, Store.liveIn, List.map_reverse, List.nodup_reverse]
    exact h.distinct.sublist (List.filter_sublist.map _)
  have hfree : ∀ p ∈ s.dying id, ∀ loan ∈ (s.unwound id).ledger.loans, p.isPrefixOf loan.holder = false := by
    intro p hp loan hloan
    rw [loans_unwound hledger, List.mem_filter, Bool.and_eq_true, List.all_eq_true] at hloan
    exact (Bool.not_eq_true' _).mp (hloan.2.2 p hp)
  rw [endScope_of_closes hcloses,
    Registry.fst_buryAll (disciplined_unwound hledger id) (fun p => isVar_of_mem_dying h.placed) hdistinct hfree, dying,
    List.findSome?_map]
  refine findSome?_congr fun decl hdecl => ?_
  rw [Function.comp_apply, Registry.lentFault?, overlapping_unwound h hledger (List.mem_map_of_mem hdecl),
    h.placed decl (mem_liveIn_iff.mp hdecl).1]
  rfl

theorem endScope_eq_none_iff (h : s.store.Listed) (hledger : s.ledger.Disciplined) (hcloses : s.closes id = true) :
    (s.endScope id).1 = none ↔ ∀ loan ∈ s.ledger.loans, s.outlives id loan = false := by
  rw [fst_endScope h hledger hcloses, List.findSome?_eq_none_iff]
  simp only [Option.map_eq_none_iff, List.head?_eq_none_iff]
  constructor
  · intro hnone loan hloan
    rw [Bool.eq_false_iff]
    intro hout
    obtain ⟨decl, hfind, hlive, hscope⟩ := diesWith_iff.mp (Bool.and_eq_true_iff.mp hout).2
    obtain ⟨hmem, hname⟩ := h.distinct.find?_eq_some_iff.mp hfind
    have hempty := hnone decl (mem_liveIn_iff.mpr ⟨hmem, hlive, hscope⟩)
    exact List.not_mem_nil (hempty ▸ mem_outliving_iff.mpr ⟨hloan, hout, hname.symm⟩)
  · intro hnone decl _
    refine List.eq_nil_iff_forall_not_mem.mpr fun loan hloan => ?_
    obtain ⟨hmem, hout, -⟩ := mem_outliving_iff.mp hloan
    exact Bool.noConfusion (hout.symm.trans (hnone loan hmem))

/-- The fault when a scope closes is about the latest variable with a loan that would outlive it, and the oldest of
these loans. -/
theorem blames_of_endScope (h : s.store.Listed) (hordered : s.store.Ordered) (hledger : s.ledger.Disciplined)
    (hcloses : s.closes id = true) {fault : Fault} (hfault : (s.endScope id).1 = some fault) :
    ∃ decl loan, s.Blames id decl loan ∧ fault = .about .loanOutlivesSource (.var decl.name) (some loan) := by
  rw [fst_endScope h hledger hcloses, List.findSome?_eq_some_iff] at hfault
  obtain ⟨later, decl, earlier, hsplit, hblamed, hlater⟩ := hfault
  obtain ⟨loan, hhead, rfl⟩ := Option.map_eq_some_iff.mp hblamed
  have hdescending : (later ++ decl :: earlier).Pairwise fun a b => b.order < a.order :=
    hsplit ▸ List.pairwise_reverse.mpr (hordered.increasing.sublist List.filter_sublist)
  obtain ⟨hlent, hout, hroot⟩ := mem_outliving_iff.mp (List.mem_of_head? hhead)
  have hdecl : decl ∈ s.store.liveIn id := hsplit ▸ List.mem_append_right _ List.mem_cons_self
  have hfind : s.store.find? loan.source.root = some decl :=
    h.distinct.find?_eq_some_iff.mpr ⟨(mem_liveIn_iff.mp hdecl).1, hroot.symm⟩
  refine ⟨decl, loan, ⟨hfind, hlent, hout, ?_, ?_⟩, rfl⟩
  · intro other hother houtlives decl' hfind'
    obtain ⟨hmem, hname⟩ := h.distinct.find?_eq_some_iff.mp hfind'
    obtain ⟨found, hfound, hlive, hscope⟩ := diesWith_iff.mp (Bool.and_eq_true_iff.mp houtlives).2
    obtain rfl : decl' = found := Option.some.inj (hfind'.symm.trans hfound)
    have hdying : decl' ∈ later ++ decl :: earlier := hsplit ▸ mem_liveIn_iff.mpr ⟨hmem, hlive, hscope⟩
    rcases List.mem_append.mp hdying with hbefore | hrest
    · -- nothing outlives the variables that were declared later
      have hnone := hlater decl' hbefore
      rw [Option.map_eq_none_iff, List.head?_eq_none_iff] at hnone
      exact absurd (mem_outliving_iff.mpr ⟨hother, houtlives, hname.symm⟩) (hnone ▸ List.not_mem_nil)
    · rcases List.mem_cons.mp hrest with rfl | hafter
      · exact Nat.le_refl _
      · exact Nat.le_of_lt (List.rel_of_pairwise_cons (List.pairwise_append.mp hdescending).2.1 hafter)
  · intro other hother houtlives hsame
    have hmem : other ∈ s.outliving id decl.name := mem_outliving_iff.mpr ⟨hother, houtlives, hsame.trans hroot⟩
    have hnumbered : (s.outliving id decl.name).Pairwise (·.id.number < ·.id.number) :=
      hledger.ordered.sublist List.filter_sublist
    obtain ⟨rest, hlist⟩ := List.head?_eq_some_iff.mp hhead
    rw [hlist] at hmem hnumbered
    rcases List.mem_cons.mp hmem with rfl | hyounger
    · exact Nat.le_refl _
    · exact Nat.le_of_lt (List.rel_of_pairwise_cons hnumbered hyounger)

/-! ## The exit -/

theorem scopes_of_closes (h : s.closes id = true) : ∃ stop, s.scopes = ⟨id, stop⟩ :: s.scopes.tail := by
  obtain ⟨hid, hinner⟩ := closes_iff.mp h
  rw [currentScope] at hinner
  cases hscopes : s.scopes with
  | nil =>
    rw [hscopes] at hinner
    exact absurd hinner.symm hid
  | cons innermost outer =>
    rw [hscopes] at hinner
    obtain rfl : innermost.id = id := hinner
    exact ⟨innermost.stop, rfl⟩

theorem find?_endScope (h : s.store.Listed) (hcloses : s.closes id = true) (x : Symbol) :
    (s.endScope id).2.store.find? x =
      (s.store.find? x).map fun decl => if s.diesWith id x then { decl with live := false } else decl := by
  have hstore : (s.endScope id).2.store = (s.dying id).foldl Store.retire s.store := by
    have hburied : (s.endScope id).2.store = ((s.unwound id).buryAll (s.dying id)).2.store := by
      rw [endScope_of_closes hcloses]
      rfl
    rw [hburied, Registry.store_buryAll, unwound_frame]
    rfl
  rw [hstore, Store.find?_foldl_retire fun p => isVar_of_mem_dying h.placed, any_dying_eq h]

theorem splits_endScope (hcloses : s.closes id = true) :
    (s.endScope id).2.splits.records = s.splits.records.filter (·.scope != id) := by
  have hburied : (s.endScope id).2.splits = ((s.unwound id).buryAll (s.dying id)).2.splits := by
    rw [endScope_of_closes hcloses]
    rfl
  rw [hburied, Registry.splits_buryAll, unwound_frame]
  rfl

/-- **Leaving a scope.** When the innermost scope closes, whatever the verdict, its live variables are dead and nothing
else changes about any variable; the scope and its splits are gone; and the loans that are left have not run out, are
not tied to the scope, and neither lend a variable that died nor are held by one. It is a violation exactly if a loan
would outlive what it lends, and the violation names the latest variable to which that happens and the oldest of the
loans. -/
theorem scope_exit (hs : Reachable config s) (hrun : s.stopped = false) (hinner : s.currentScope = id) (hid : id ≠ .root) :
    let verdict := (s.step (.scopeEnd id)).1
    let t := (s.step (.scopeEnd id)).2
    (∀ x, t.store.find? x =
      (s.store.find? x).map fun decl => if s.diesWith id x then { decl with live := false } else decl) ∧
    (∃ stop, s.scopes = ⟨id, stop⟩ :: t.scopes) ∧
    t.splits.records = s.splits.records.filter (·.scope != id) ∧
    (t.ledger.loans = s.ledger.loans.filter fun loan =>
      !Ledger.expired s.next loan && (loan.region != .scope id && !s.diesWith id loan.holder.root &&
        !s.diesWith id loan.source.root)) ∧
    ((∃ v, verdict = .violation v) ↔ ∃ loan ∈ s.refreshed.ledger.loans, s.outlives id loan = true) ∧
    (∀ v, verdict = .violation v → ∃ decl loan, s.refreshed.Blames id decl loan ∧
      v = { kind := .loanOutlivesSource, place := some (.var decl.name), loan := some loan.info, index := s.next }) ∧
    ((¬ ∃ v, verdict = .violation v) → verdict = .ok) := by
  have hcurrent : s.closes id = true := closes_iff.mpr ⟨hid, hinner⟩
  have hcloses : s.refreshed.closes id = true := hcurrent
  have hlisted : s.refreshed.store.Listed := hs.listed
  obtain ⟨stopped, hstep⟩ := s.step_running hrun (.scopeEnd id)
  -- the verdict is a violation exactly if the scope closes with a fault
  have hviolation : (∃ v, (s.step (.scopeEnd id)).1 = .violation v) ↔ (s.refreshed.endScope id).1 ≠ none := by
    rcases s.step_cases hrun (.scopeEnd id) with ⟨hnone, hok⟩ | ⟨fault, hsome, hbad⟩
    · have hnone : (s.refreshed.endScope id).1 = none := hnone
      simp [hok, hnone]
    · have hsome : (s.refreshed.endScope id).1 = some fault := hsome
      simp [hbad, hsome]
  refine ⟨fun x => ?_, ?_, ?_, ?_, ?_, fun v hv => ?_, fun hfine => ?_⟩
  · rw [hstep]
    exact find?_endScope hlisted hcloses x
  · obtain ⟨stop, hscopes⟩ := scopes_of_closes hcurrent
    refine ⟨stop, ?_⟩
    rw [scopes_step hrun, scopesAfter, if_pos hcurrent]
    exact hscopes
  · rw [hstep]
    exact splits_endScope hcloses
  · have hleft : (s.step (.scopeEnd id)).2.ledger.loans = (s.refreshed.endScope id).2.ledger.loans := by
      rw [hstep]
      rfl
    rw [hleft, loans_endScope hs.refreshed_disciplined hs.placed, if_pos hcloses, loans_refreshed, List.filter_filter]
    refine List.filter_congr fun loan _ => ?_
    rw [outlasts_eq hlisted, Bool.and_comm]
    rfl
  · rw [hviolation, ne_eq, endScope_eq_none_iff hlisted hs.refreshed_disciplined hcloses]
    simp only [not_forall, Bool.not_eq_false, exists_prop]
    rfl
  · rcases s.step_cases hrun (.scopeEnd id) with ⟨-, hok⟩ | ⟨fault, hfault, hbad⟩
    · rw [hok] at hv
      exact Verdict.noConfusion hv
    · obtain ⟨decl, loan, hblames, rfl⟩ :=
        blames_of_endScope hlisted hs.ordered hs.refreshed_disciplined hcloses hfault
      rw [hbad] at hv
      exact ⟨decl, loan, hblames, (Verdict.violation.inj hv).symm⟩
  · rw [hviolation, not_not] at hfine
    exact step_ok hrun hfine

/-- A scope with four variables closes while two of them are lent to an outer one, which also holds a loan that stays. The
later of the two is named, with the older of the loans on it, although the other has an older loan still. -/
theorem inner_variables_lent_outwards :
    let s := (({} : Session).stepAll [.bindFreshMut (.var ⟨0⟩), .bindFreshMut (.var ⟨7⟩), .split (.var ⟨7⟩) 2,
      .borrowShared (.var ⟨7⟩) (.var ⟨0⟩) (.scope .root), .scopeBegin ⟨1⟩,
      .bindFresh (.var ⟨1⟩), .bindFresh (.var ⟨2⟩), .bindFresh (.var ⟨3⟩), .split (.var ⟨3⟩) 2,
      .borrowShared (.var ⟨1⟩) ⟨⟨0⟩, [.field ⟨5⟩]⟩ (.scope .root),
      .borrowShared (.var ⟨2⟩) ⟨⟨0⟩, [.field ⟨6⟩]⟩ (.scope .root),
      .borrowShared (.var ⟨2⟩) ⟨⟨0⟩, [.field ⟨8⟩]⟩ (.scope .root),
      .borrowShared (.var ⟨3⟩) (.var ⟨4⟩) (.scope ⟨1⟩)]).2
    s.ledger.loans.map (·.id.number) = [0, 1, 2, 3, 4] ∧
    (s.step (.scopeEnd ⟨1⟩)).1 = .violation
      ⟨⟨.loanOutlivesSource, some (.var ⟨2⟩), some ⟨⟨2⟩, .var ⟨2⟩, .shared, ⟨⟨0⟩, [.field ⟨6⟩]⟩, 10⟩⟩, 13⟩ ∧
    (s.step (.scopeEnd ⟨1⟩)).2.ledger.loans.map (·.id.number) = [0] ∧
    (s.step (.scopeEnd ⟨1⟩)).2.splits.records.map (·.array) = [.var ⟨7⟩] ∧
    ∃ decl loan, s.refreshed.Blames ⟨1⟩ decl loan ∧ decl.name = ⟨2⟩ ∧ loan.id.number = 2 := by
  intro s
  have hs : Reachable {} s := (Reachable.start {}).stepAll _
  have hverdict : (s.step (.scopeEnd ⟨1⟩)).1 = .violation
      ⟨⟨.loanOutlivesSource, some (.var ⟨2⟩), some ⟨⟨2⟩, .var ⟨2⟩, .shared, ⟨⟨0⟩, [.field ⟨6⟩]⟩, 10⟩⟩, 13⟩ := by decide
  obtain ⟨-, -, -, -, -, hblamed, -⟩ := @scope_exit {} s ⟨1⟩ hs rfl rfl (by decide)
  obtain ⟨decl, loan, hblames, hnamed⟩ := hblamed _ hverdict
  have hplace : some (Place.var ⟨2⟩) = some (.var decl.name) := congrArg (·.place) hnamed
  have hinfo := congrArg (·.loan) hnamed
  refine ⟨by decide, hverdict, by decide, by decide, decl, loan, hblames, ?_, ?_⟩
  · exact (congrArg Place.root (Option.some.inj hplace)).symm
  · exact (congrArg (·.id.number) (Option.some.inj hinfo)).symm

end Session

end BorrowChecker
