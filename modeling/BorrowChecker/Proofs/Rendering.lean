import BorrowChecker.Place.Printer
import BorrowChecker.Proofs.Overlap

/-!
# Printed places can be told apart

Steps are printed behind what is there already, except for the star, which is put in front, and a star expression is put in
parentheses when a further step is printed. The last step of a place can still be read off the text, if names have none of
the characters that steps are printed with: the text begins with a star exactly after a `deref` (`head?_render_eq_iff`), and
otherwise its end says which step it was (`append_tail_inj`). What is left is the text of the place before, and whether that
is a star expression is told by the parentheses (`base_inj`). So places with the same text are the same
(`render_injective`).
-/

namespace BorrowChecker

/-! ## Texts -/

/-- What is behind the last of several marks, and what is in front of it. -/
theorem append_cons_inj_of_not_mem {mark : Char} {xs ys xs' ys' : List Char} (hy : mark ∉ ys) (hy' : mark ∉ ys')
    (h : xs ++ mark :: ys = xs' ++ mark :: ys') : xs = xs' ∧ ys = ys' := by
  rcases List.append_eq_append_iff.mp h with ⟨zs, rfl, hzs⟩ | ⟨zs, rfl, hzs⟩
  · cases zs with
    | nil => simpa using hzs
    | cons z zs =>
      obtain ⟨-, rfl⟩ := List.cons_eq_cons.mp hzs
      exact absurd (List.mem_append_right zs List.mem_cons_self) hy
  · cases zs with
    | nil => simpa using hzs.symm
    | cons z zs =>
      obtain ⟨-, rfl⟩ := List.cons_eq_cons.mp hzs
      exact absurd (List.mem_append_right zs List.mem_cons_self) hy'

/-- The characters that steps are printed with. -/
def marks : List Char := ['.', '*', '(', ')', '[', ']']

namespace Interner

variable {names : Interner} {x y : Symbol}

/-- No two symbols have the same name. -/
def Distinct (names : Interner) : Prop :=
  ∀ x y name, names.name? x = some name → names.name? y = some name → x = y

/-- The symbol has a name, and the name has no mark in it. -/
def Spells (names : Interner) (x : Symbol) : Prop :=
  ∃ name, names.name? x = some name ∧ ∀ c ∈ marks, c ∉ name.toList

theorem Spells.not_mem_name (h : names.Spells x) {c : Char} (hc : c ∈ marks) : c ∉ (names.name x).toList := by
  obtain ⟨text, hname, hplain⟩ := h
  rw [name, hname]
  exact hplain c hc

theorem Distinct.eq_of_name (h : names.Distinct) (hx : names.Spells x) (hy : names.Spells y)
    (heq : names.name x = names.name y) : x = y := by
  obtain ⟨text, hname, -⟩ := hx
  obtain ⟨text', hname', -⟩ := hy
  rw [name, name, hname, hname'] at heq
  cases heq
  exact h x y text hname hname'

theorem distinct_of_nodup (h : names.known.Nodup) : names.Distinct := by
  intro x y name hx hy
  obtain ⟨hlt, -⟩ := List.getElem?_eq_some_iff.mp hx
  have hindex : x.index = y.index := (List.getElem?_inj hlt h).mp (hx.trans hy.symm)
  cases x
  cases y
  exact congrArg Symbol.mk hindex

/-- An interner does not hand out two symbols for one name. -/
theorem nodup_intern (h : names.known.Nodup) (name : String) : (names.intern name).2.known.Nodup := by
  rw [intern]
  split
  next => exact h
  next hnone =>
    rw [get?, Option.map_eq_none_iff, List.idxOf?_eq_none_iff] at hnone
    refine List.nodup_append.mpr ⟨h, by simp, fun known hknown new hnew => ?_⟩
    rintro rfl
    exact hnone (List.mem_singleton.mp hnew ▸ hknown)

end Interner

/-! ## One step -/

namespace Projection

variable {names : Interner}

/-- The symbol that is printed for a step. -/
def symbol? : Projection → Option Symbol
  | .field f => some f
  | _ => none

/-- What is printed behind the text of a place for a further step. -/
def tail (names : Interner) : Projection → List Char
  | .field f => '.' :: (names.name f).toList
  | .index => '[' :: (['_'] ++ [']'])
  | .deref => []
  | .subslice lo hi => '[' :: ((bounds lo hi).toList ++ [']'])

theorem toList_bounds (lo : Nat) (hi : Option Nat) :
    (bounds lo hi).toList =
      (if lo = 0 then [] else Nat.toDigits 10 lo) ++ ['.'] ++ '.' :: hi.elim [] (Nat.toDigits 10) := by
  have hlo : (if lo = 0 then "" else toString lo).toList = if lo = 0 then [] else Nat.toDigits 10 lo := by
    split
    · rfl
    · rw [Nat.toString_eq_repr, Nat.toList_repr]
  have hhi : (hi.elim "" toString).toList = hi.elim [] (Nat.toDigits 10) := by
    cases hi with
    | none => rfl
    | some hi => exact Nat.toList_repr
  rw [bounds, String.toList_append, String.toList_append, hlo, hhi, List.append_assoc, List.append_assoc]
  rfl

theorem mem_bounds {lo : Nat} {hi : Option Nat} {c : Char} (h : c ∈ (bounds lo hi).toList) : c = '.' ∨ c.isDigit = true := by
  have hdigit : ∀ n, c ∈ Nat.toDigits 10 n → c.isDigit = true :=
    fun n hn => Nat.isDigit_of_mem_toDigits (by decide) (by decide) hn
  rw [toList_bounds, List.mem_append, List.mem_append, List.mem_singleton, List.mem_cons] at h
  rcases h with (hlo | hdot) | hdot | hhi
  · split at hlo
    · exact absurd hlo List.not_mem_nil
    · exact Or.inr (hdigit lo hlo)
  · exact Or.inl hdot
  · exact Or.inl hdot
  · cases hi with
    | none => exact absurd hhi List.not_mem_nil
    | some hi => exact Or.inr (hdigit hi hhi)

theorem toDigits_inj {m n : Nat} (h : Nat.toDigits 10 m = Nat.toDigits 10 n) : m = n := by
  rw [← Nat.ofDigitChars_toDigits (b := 10) (n := m) (by decide) (by decide), h,
    Nat.ofDigitChars_toDigits (by decide) (by decide)]

/-- A bound that is left out is told from any number. -/
theorem bounds_inj {lo lo' : Nat} {hi hi' : Option Nat} (h : (bounds lo hi).toList = (bounds lo' hi').toList) :
    lo = lo' ∧ hi = hi' := by
  have hdot : ∀ hi : Option Nat, '.' ∉ hi.elim [] (Nat.toDigits 10) := by
    intro hi hmem
    cases hi with
    | none => exact absurd hmem List.not_mem_nil
    | some hi => exact absurd (Nat.isDigit_of_mem_toDigits (by decide) (by decide) hmem) (by decide)
  rw [toList_bounds, toList_bounds] at h
  obtain ⟨hlo, hhi⟩ := append_cons_inj_of_not_mem (hdot hi) (hdot hi') h
  constructor
  · have hlo := List.append_cancel_right hlo
    split at hlo
    next hzero =>
      split at hlo
      next hzero' => rw [hzero, hzero']
      next => exact absurd hlo.symm Nat.toDigits_ne_nil
    next =>
      split at hlo
      next => exact absurd hlo Nat.toDigits_ne_nil
      next => exact toDigits_inj hlo
  · cases hi with
    | none =>
      cases hi' with
      | none => rfl
      | some hi' => exact absurd hhi.symm Nat.toDigits_ne_nil
    | some hi =>
      cases hi' with
      | none => exact absurd hhi Nat.toDigits_ne_nil
      | some hi' => exact congrArg some (toDigits_inj hhi)

theorem mem_tail {e : Projection} {c : Char} (h : c ∈ e.tail names) :
    c ∈ ['.', '[', '_', ']'] ∨ c.isDigit = true ∨ ∃ f ∈ e.symbol?, c ∈ (names.name f).toList := by
  cases e with
  | field f =>
    rcases List.mem_cons.mp h with rfl | hname
    · exact Or.inl List.mem_cons_self
    · exact Or.inr (Or.inr ⟨f, rfl, hname⟩)
  | index => exact Or.inl (List.mem_cons_of_mem _ h)
  | deref => exact absurd h List.not_mem_nil
  | subslice lo hi =>
    rw [tail, List.mem_cons, List.mem_append, List.mem_singleton] at h
    rcases h with rfl | hbounds | rfl
    · exact Or.inl (by decide)
    · rcases mem_bounds hbounds with rfl | hdigit
      · exact Or.inl List.mem_cons_self
      · exact Or.inr (Or.inl hdigit)
    · exact Or.inl (by decide)

/-- Behind the text of a place, a step is printed without stars and parentheses. -/
theorem not_mem_tail {e : Projection} (h : ∀ f ∈ e.symbol?, names.Spells f) {c : Char} (hc : c ∈ ['*', '(', ')']) :
    c ∉ e.tail names := by
  simp only [List.mem_cons, List.not_mem_nil, or_false] at hc
  rcases hc with rfl | rfl | rfl
  all_goals
    intro hmem
    rcases mem_tail hmem with hmark | hdigit | ⟨f, hf, hname⟩
    · exact absurd hmark (by decide)
    · exact absurd hdigit (by decide)
    · exact (h f hf).not_mem_name (by decide) hname

theorem exists_mark_mem_tail (names : Interner) {e : Projection} (h : e ≠ .deref) : ∃ c ∈ marks, c ∈ e.tail names := by
  cases e with
  | deref => exact absurd rfl h
  | field f => exact ⟨'.', by decide, List.mem_cons_self⟩
  | index => exact ⟨'[', by decide, List.mem_cons_self⟩
  | subslice lo hi => exact ⟨'[', by decide, List.mem_cons_self⟩

theorem append_bracket_inj {text text' inner inner' : List Char} (hinner : '[' ∉ inner) (hinner' : '[' ∉ inner')
    (h : text ++ '[' :: (inner ++ [']']) = text' ++ '[' :: (inner' ++ [']'])) : text = text' ∧ inner = inner' := by
  have hclosed : ∀ inner : List Char, '[' ∉ inner → '[' ∉ inner ++ [']'] := by
    intro inner hinner hmem
    rcases List.mem_append.mp hmem with hmem | hmem
    · exact hinner hmem
    · exact absurd hmem (by decide)
  obtain ⟨htext, hrest⟩ := append_cons_inj_of_not_mem (hclosed inner hinner) (hclosed inner' hinner') h
  exact ⟨htext, List.append_cancel_right hrest⟩

theorem append_field_ne {text text' name inner : List Char} (hname : ']' ∉ name) :
    text ++ '.' :: name ≠ text' ++ '[' :: (inner ++ [']']) := by
  intro h
  have hlast : (text ++ '.' :: name).getLast? = some ']' := by
    rw [h, ← List.cons_append, ← List.append_assoc, List.getLast?_concat]
  rw [List.getLast?_append_of_ne_nil _ (List.cons_ne_nil _ _)] at hlast
  rcases List.mem_cons.mp (List.mem_of_getLast? hlast) with hdot | hmem
  · exact absurd hdot (by decide)
  · exact hname hmem

/-- The step that a text ends in, and the text in front of it. -/
theorem append_tail_inj (hdistinct : names.Distinct) {e e' : Projection} (he : ∀ x ∈ e.symbol?, names.Spells x)
    (he' : ∀ x ∈ e'.symbol?, names.Spells x) (hstep : e ≠ .deref) (hstep' : e' ≠ .deref) {text text' : List Char}
    (h : text ++ e.tail names = text' ++ e'.tail names) : text = text' ∧ e = e' := by
  -- bounds have no bracket in them and names no mark at all, so the last mark tells where the step begins
  have hopen : ∀ lo hi, '[' ∉ (bounds lo hi).toList := fun lo hi hmem => absurd (mem_bounds hmem) (by decide)
  have hdots : ∀ lo hi, (bounds lo hi).toList ≠ ['_'] := by
    intro lo hi hbounds
    have hmem : '_' ∈ (bounds lo hi).toList := hbounds ▸ List.mem_singleton_self _
    exact absurd (mem_bounds hmem) (by decide)
  cases e with
  | deref => exact absurd rfl hstep
  | field f =>
    have hname : ∀ c ∈ marks, c ∉ (names.name f).toList := fun c hc => (he f rfl).not_mem_name hc
    cases e' with
    | deref => exact absurd rfl hstep'
    | field g =>
      obtain ⟨htext, hnames⟩ := append_cons_inj_of_not_mem (hname '.' (by decide))
        ((he' g rfl).not_mem_name (by decide)) h
      exact ⟨htext, congrArg field (hdistinct.eq_of_name (he f rfl) (he' g rfl) (String.toList_inj.mp hnames))⟩
    | index => exact absurd h (append_field_ne (hname ']' (by decide)))
    | subslice lo hi => exact absurd h (append_field_ne (hname ']' (by decide)))
  | index =>
    cases e' with
    | deref => exact absurd rfl hstep'
    | field g => exact absurd h.symm (append_field_ne ((he' g rfl).not_mem_name (by decide)))
    | index => exact ⟨List.append_cancel_right h, rfl⟩
    | subslice lo hi => exact absurd (append_bracket_inj (by decide) (hopen lo hi) h).2.symm (hdots lo hi)
  | subslice lo hi =>
    cases e' with
    | deref => exact absurd rfl hstep'
    | field g => exact absurd h.symm (append_field_ne ((he' g rfl).not_mem_name (by decide)))
    | index => exact absurd (append_bracket_inj (hopen lo hi) (by decide) h).2 (hdots lo hi)
    | subslice lo' hi' =>
      obtain ⟨htext, hbounds⟩ := append_bracket_inj (hopen lo hi) (hopen lo' hi') h
      obtain ⟨rfl, rfl⟩ := bounds_inj hbounds
      exact ⟨htext, rfl⟩

end Projection

/-! ## Whole places -/

namespace Place

open Projection

variable {names : Interner} {p q : Place}

def symbols (p : Place) : List Symbol := p.root :: p.path.filterMap (·.symbol?)

/-- Whether the place is printed as a star expression. -/
def starred (p : Place) : Bool := p.path.foldl (fun _ e => e == .deref) false

/-- The text that the next step is printed behind. -/
def base (names : Interner) (p : Place) : List Char :=
  if p.starred then '(' :: ((p.render names).toList ++ [')']) else (p.render names).toList

theorem starred_project (p : Place) (e : Projection) : (p.project e).starred = (e == .deref) := by
  simp [starred, project]

theorem forall_symbols_project {P : Symbol → Prop} {e : Projection} :
    (∀ x ∈ (p.project e).symbols, P x) ↔ (∀ x ∈ p.symbols, P x) ∧ ∀ x ∈ e.symbol?, P x := by
  have hsymbols : (p.project e).symbols = p.symbols ++ e.symbol?.toList := by
    rw [symbols, symbols, project, List.filterMap_append]
    cases e <;> rfl
  rw [hsymbols, List.forall_mem_append]
  simp only [Option.mem_toList, Option.mem_def]

theorem renderFrom_append (names : Interner) (text : String) (starred : Bool) (path rest : List Projection) :
    renderFrom names text starred (path ++ rest) =
      renderFrom names (renderFrom names text starred path) (path.foldl (fun _ e => e == .deref) starred) rest := by
  induction path generalizing text starred with
  | nil => rfl
  | cons e path ih =>
    cases e with
    | field f => exact ih _ _
    | index => exact ih _ _
    | deref => exact ih _ _
    | subslice lo hi => exact ih _ _

theorem render_project (p : Place) (e : Projection) :
    ((p.project e).render names).toList =
      if e = .deref then '*' :: p.base names else p.base names ++ e.tail names := by
  have hstep : (p.project e).render names = renderFrom names (p.render names) p.starred [e] :=
    renderFrom_append names _ _ p.path [e]
  have hbase : (if p.starred then "(" ++ p.render names ++ ")" else p.render names).toList = p.base names := by
    rw [base]
    split
    · rw [String.toList_append, String.toList_append]
      rfl
    · rfl
  rw [hstep]
  cases e with
  | field f =>
    change ((if p.starred then "(" ++ p.render names ++ ")" else p.render names) ++ "." ++ names.name f).toList = _
    rw [String.toList_append, String.toList_append, hbase, List.append_assoc]
    rfl
  | index =>
    change ((if p.starred then "(" ++ p.render names ++ ")" else p.render names) ++ "[_]").toList = _
    rw [String.toList_append, hbase]
    rfl
  | deref =>
    change ("*" ++ (if p.starred then "(" ++ p.render names ++ ")" else p.render names)).toList = _
    rw [String.toList_append, hbase]
    rfl
  | subslice lo hi =>
    change ((if p.starred then "(" ++ p.render names ++ ")" else p.render names) ++ "[" ++ Projection.bounds lo hi ++
      "]").toList = _
    rw [String.toList_append, String.toList_append, String.toList_append, hbase, List.append_assoc, List.append_assoc]
    rfl

theorem base_of_starred (h : p.starred = true) : p.base names = '(' :: ((p.render names).toList ++ [')']) := by
  rw [base, if_pos h]

theorem base_of_not_starred (h : p.starred = false) : p.base names = (p.render names).toList := by
  rw [base, h]
  rfl

/-- A text begins with a star exactly if it is a star expression. -/
theorem head?_render_eq_iff (h : ∀ x ∈ p.symbols, names.Spells x) :
    (p.render names).toList.head? = some '*' ↔ p.starred = true := by
  induction p using stepInduction with
  | var x =>
    refine iff_of_false (fun hhead => ?_) Bool.false_ne_true
    exact (h x List.mem_cons_self).not_mem_name (by decide) (List.mem_of_head? hhead)
  | project p e ih =>
    obtain ⟨hp, he⟩ := forall_symbols_project.mp h
    rw [render_project, starred_project, beq_iff_eq]
    split
    next hderef => exact iff_of_true rfl hderef
    next hstep =>
      refine iff_of_false (fun hhead => ?_) hstep
      have hbase : (p.base names).head? ≠ some '*' := by
        cases hstar : p.starred with
        | true => simp [base_of_starred hstar]
        | false =>
          rw [base_of_not_starred hstar, Ne, ih hp, hstar]
          exact Bool.false_ne_true
      rw [List.head?_append, Option.or_eq_some_iff] at hhead
      rcases hhead with hhead | ⟨-, hhead⟩
      · exact hbase hhead
      · exact not_mem_tail he (by decide) (List.mem_of_head? hhead)

/-- Only a star expression in parentheses ends with one. -/
theorem getLast?_render_ne (h : ∀ x ∈ p.symbols, names.Spells x) (hstar : p.starred = false) :
    (p.render names).toList.getLast? ≠ some ')' := by
  intro hlast
  induction p using stepInduction with
  | var x => exact (h x List.mem_cons_self).not_mem_name (by decide) (List.mem_of_getLast? hlast)
  | project p e _ =>
    have hstep : e ≠ .deref := ne_of_beq_false (starred_project p e ▸ hstar)
    obtain ⟨c, -, hc⟩ := exists_mark_mem_tail names hstep
    rw [render_project, if_neg hstep, List.getLast?_append_of_ne_nil _ (List.ne_nil_of_mem hc)] at hlast
    exact not_mem_tail (forall_symbols_project.mp h).2 (by decide) (List.mem_of_getLast? hlast)

theorem base_inj (hp : ∀ x ∈ p.symbols, names.Spells x) (hq : ∀ x ∈ q.symbols, names.Spells x)
    (h : p.base names = q.base names) : p.render names = q.render names := by
  have hclosed : ∀ text : List Char, ('(' :: (text ++ [')'])).getLast? = some ')' := fun text => by
    rw [← List.cons_append, List.getLast?_concat]
  cases hpstar : p.starred with
  | true =>
    rw [base_of_starred hpstar] at h
    cases hqstar : q.starred with
    | true =>
      rw [base_of_starred hqstar] at h
      exact String.toList_inj.mp (List.append_cancel_right (List.cons.inj h).2)
    | false =>
      -- only one of the two texts ends with a parenthesis
      rw [base_of_not_starred hqstar] at h
      exact absurd (h ▸ hclosed _) (getLast?_render_ne hq hqstar)
  | false =>
    rw [base_of_not_starred hpstar] at h
    cases hqstar : q.starred with
    | true =>
      rw [base_of_starred hqstar] at h
      exact absurd (h ▸ hclosed _) (getLast?_render_ne hp hpstar)
    | false =>
      rw [base_of_not_starred hqstar] at h
      exact String.toList_inj.mp h

/-- The last steps of two places with the same text are the same, and so are the texts of the places before. -/
theorem render_project_inj (hdistinct : names.Distinct) {e f : Projection}
    (hp : ∀ x ∈ (p.project e).symbols, names.Spells x) (hq : ∀ x ∈ (q.project f).symbols, names.Spells x)
    (h : (p.project e).render names = (q.project f).render names) : p.render names = q.render names ∧ e = f := by
  have hstar : (p.project e).starred = true ↔ (q.project f).starred = true := by
    rw [← head?_render_eq_iff hp, ← head?_render_eq_iff hq, h]
  rw [starred_project, starred_project, beq_iff_eq, beq_iff_eq] at hstar
  obtain ⟨hp, he⟩ := forall_symbols_project.mp hp
  obtain ⟨hq, hf⟩ := forall_symbols_project.mp hq
  rw [← String.toList_inj, render_project, render_project] at h
  by_cases hderef : e = .deref
  · rw [if_pos hderef, if_pos (hstar.mp hderef)] at h
    exact ⟨base_inj hp hq (List.cons.inj h).2, hderef.trans (hstar.mp hderef).symm⟩
  · have hderef' : f ≠ .deref := fun hf => hderef (hstar.mpr hf)
    rw [if_neg hderef, if_neg hderef'] at h
    exact (append_tail_inj hdistinct he hf hderef hderef' h).imp_left (base_inj hp hq)

/-- A place with a step in it is not printed like a variable. -/
theorem render_project_ne_var {x : Symbol} (hx : names.Spells x) (p : Place) (e : Projection) :
    (p.project e).render names ≠ (var x).render names := by
  intro h
  rw [← String.toList_inj, render_project] at h
  split at h
  next => exact hx.not_mem_name (by decide) (h ▸ List.mem_cons_self)
  next hstep =>
    obtain ⟨c, hmark, hc⟩ := exists_mark_mem_tail names hstep
    exact hx.not_mem_name hmark (h ▸ List.mem_append_right _ hc)

/-- **Printed places can be told apart.** If no two symbols have the same name, and the symbols of two places have names
without any of the characters that steps are printed with, then the places are the same if they are printed alike. -/
theorem render_injective (hdistinct : names.Distinct) (hp : ∀ x ∈ p.symbols, names.Spells x)
    (hq : ∀ x ∈ q.symbols, names.Spells x) (h : p.render names = q.render names) : p = q := by
  induction p using stepInduction generalizing q with
  | var x =>
    induction q using stepInduction with
    | var y => exact congrArg var (hdistinct.eq_of_name (hp x List.mem_cons_self) (hq y List.mem_cons_self) h)
    | project q f _ => exact absurd h.symm (render_project_ne_var (hp x List.mem_cons_self) q f)
  | project p e ih =>
    induction q using stepInduction with
    | var y => exact absurd h (render_project_ne_var (hq y List.mem_cons_self) p e)
    | project q f _ =>
      obtain ⟨htext, rfl⟩ := render_project_inj hdistinct hp hq h
      rw [ih (forall_symbols_project.mp hp).1 (forall_symbols_project.mp hq).1 htext]

/-- A place behind two pointers in a row is printed like no other. -/
theorem doubly_starred_window_told_apart :
    let names := ((({} : Interner).intern "a").2.intern "f").2
    let p : Place := ⟨⟨0⟩, [.deref, .field ⟨1⟩, .subslice 0 (some 3), .deref, .deref, .index, .subslice 2 none]⟩
    p.render names = "(*(*(*a).f[..3]))[_][2..]" ∧
    ∀ q : Place, (∀ x ∈ q.symbols, x = ⟨0⟩ ∨ x = ⟨1⟩) → q.render names = "(*(*(*a).f[..3]))[_][2..]" → q = p := by
  intro names p
  have hrender : p.render names = "(*(*(*a).f[..3]))[_][2..]" := by decide
  have hdistinct : names.Distinct :=
    Interner.distinct_of_nodup (Interner.nodup_intern (Interner.nodup_intern List.nodup_nil _) _)
  have hspells : ∀ x : Symbol, x = ⟨0⟩ ∨ x = ⟨1⟩ → names.Spells x := by
    rintro x (rfl | rfl)
    · exact ⟨"a", by decide, by simp [marks]⟩
    · exact ⟨"f", by decide, by simp [marks]⟩
  refine ⟨hrender, fun q hq htext => ?_⟩
  refine render_injective hdistinct (fun x hx => hspells x (hq x hx)) (fun x hx => hspells x ?_) (htext.trans hrender.symm)
  revert x
  decide

/-- A name with a point in it is taken for a field. -/
example :
    let names : Interner := ⟨["a", "f", "a.f"]⟩
    names.known.Nodup ∧ (var ⟨2⟩).render names = render names ⟨⟨0⟩, [.field ⟨1⟩]⟩ := by
  decide

end Place

end BorrowChecker
