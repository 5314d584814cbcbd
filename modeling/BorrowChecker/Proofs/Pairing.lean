import BorrowChecker.Scope

/-!
# Pairing in parts

The pairing of a stream goes from operation to operation with a stack of the scopes that are open. So it can be cut
anywhere: the pairs of two streams in a row are those of the first, and those of the second with what the first has left
open (`pairsFrom_append`). What is left open makes no difference to the second stream if nothing of it closes there
(`pairsFrom_of_unclosed_below`).
-/

namespace BorrowChecker

namespace Scope

variable {opened above below : List (ScopeId × Nat)} {i b : Nat} {pair : Nat × Nat}

/-! ## One operation -/

/-- The scopes that the pairing has open after the operation with index `i`. -/
def advance (opened : List (ScopeId × Nat)) (i : Nat) : Operation → List (ScopeId × Nat)
  | .scopeBegin id => (id, i) :: opened
  | .scopeEnd id => if opened.head?.any (·.1 == id) then opened.tail else opened
  | _ => opened

theorem mem_advance {op : Operation} {entry : ScopeId × Nat} (h : entry ∈ advance opened i op) :
    entry ∈ opened ∨ entry.2 = i := by
  cases op with
  | scopeBegin id =>
    rcases List.mem_cons.mp h with rfl | h
    · exact Or.inr rfl
    · exact Or.inl h
  | scopeEnd id =>
    rw [advance] at h
    split at h
    · exact Or.inl (List.mem_of_mem_tail h)
    · exact Or.inl h
  | _ => exact Or.inl h

theorem nodup_advance (hstarted : ∀ entry ∈ opened, entry.2 < i) (hdistinct : (opened.map (·.2)).Nodup)
    (op : Operation) : ((advance opened i op).map (·.2)).Nodup := by
  cases op with
  | scopeBegin id =>
    refine List.nodup_cons.mpr ⟨fun hmem => ?_, hdistinct⟩
    obtain ⟨entry, hentry, hstart⟩ := List.mem_map.mp hmem
    have hlt := hstarted entry hentry
    simp only at hstart
    omega
  | scopeEnd id =>
    rw [advance]
    split
    · exact hdistinct.sublist ((List.tail_sublist _).map _)
    · exact hdistinct
  | _ => exact hdistinct

/-- The pair that the operation with index `i` completes, if it closes the innermost scope. -/
def completed (opened : List (ScopeId × Nat)) (i : Nat) : Operation → List (Nat × Nat)
  | .scopeEnd id => if opened.head?.any (·.1 == id) then opened.head?.toList.map fun entry => (entry.2, i) else []
  | _ => []

theorem pairsFrom_cons (opened : List (ScopeId × Nat)) (i : Nat) (op : Operation) (ops : List Operation) :
    pairsFrom opened i (op :: ops) = completed opened i op ++ pairsFrom (advance opened i op) (i + 1) ops := by
  cases op with
  | scopeEnd id =>
    cases opened with
    | nil => rfl
    | cons top outer => by_cases hid : top.1 = id <;> simp [pairsFrom, completed, advance, hid]
  | _ => rfl

/-- One operation further, the pairing still closes as before the scopes that are open and those that will be. -/
theorem lookup_pairsFrom_cons (hstarted : ∀ entry ∈ opened, entry.2 < i) (hdistinct : (opened.map (·.2)).Nodup)
    (op : Operation) (ops : List Operation) (hb : b ∈ (advance opened i op).map (·.2) ∨ i < b) :
    (pairsFrom opened i (op :: ops)).lookup b = (pairsFrom (advance opened i op) (i + 1) ops).lookup b := by
  cases op with
  | scopeEnd id =>
    cases opened with
    | nil => rfl
    | cons top outer =>
      by_cases hid : top.1 = id
      · have hadvance : advance (top :: outer) i (.scopeEnd id) = outer := by simp [advance, hid]
        -- the scope that closes here has been started before, and is no other's start
        have hne : (b == top.2) = false := by
          rw [beq_eq_false_iff_ne]
          rintro rfl
          rw [hadvance] at hb
          rcases hb with hb | hb
          · exact (List.nodup_cons.mp hdistinct).1 hb
          · exact Nat.lt_asymm hb (hstarted top List.mem_cons_self)
        rw [hadvance, pairsFrom, if_pos hid, List.lookup_cons, hne]
      · have hadvance : advance (top :: outer) i (.scopeEnd id) = top :: outer := by simp [advance, hid]
        rw [hadvance, pairsFrom, if_neg hid]
  | _ => rfl

/-! ## Streams -/

/-- The scopes that the pairing has open after a stream whose first operation has index `i`. -/
def advanceAll (opened : List (ScopeId × Nat)) (i : Nat) : List Operation → List (ScopeId × Nat)
  | [] => opened
  | op :: ops => advanceAll (advance opened i op) (i + 1) ops

theorem pairsFrom_append (opened : List (ScopeId × Nat)) (i : Nat) (xs ys : List Operation) :
    pairsFrom opened i (xs ++ ys) =
      pairsFrom opened i xs ++ pairsFrom (advanceAll opened i xs) (i + xs.length) ys := by
  induction xs generalizing opened i with
  | nil => rfl
  | cons op xs ih =>
    have hindex : i + 1 + xs.length = i + (op :: xs).length := by
      rw [List.length_cons]
      omega
    rw [List.cons_append, pairsFrom_cons, ih, hindex, pairsFrom_cons opened i op xs, List.append_assoc, advanceAll]

theorem mem_advanceAll {entry : ScopeId × Nat} {ops : List Operation} (h : entry ∈ advanceAll opened i ops) :
    entry ∈ opened ∨ (i ≤ entry.2 ∧ entry.2 < i + ops.length) := by
  induction ops generalizing opened i with
  | nil => exact Or.inl h
  | cons op ops ih =>
    rw [List.length_cons]
    rcases ih h with hopened | hlater
    · rcases mem_advance hopened with hbefore | hhere
      · exact Or.inl hbefore
      · exact Or.inr (by omega)
    · exact Or.inr (by omega)

/-- A pair starts with a scope that was open before the stream or is opened in it, and ends in the stream. -/
theorem bounds_of_mem_pairsFrom {ops : List Operation} (h : pair ∈ pairsFrom opened i ops) :
    (pair.1 ∈ opened.map (·.2) ∨ (i ≤ pair.1 ∧ pair.1 < i + ops.length)) ∧ i ≤ pair.2 ∧ pair.2 < i + ops.length := by
  induction ops generalizing opened i with
  | nil => exact absurd h List.not_mem_nil
  | cons op ops ih =>
    rw [pairsFrom_cons] at h
    rw [List.length_cons]
    rcases List.mem_append.mp h with hhere | hlater
    · cases op with
      | scopeEnd id =>
        rw [completed] at hhere
        split at hhere
        · obtain ⟨entry, hentry, rfl⟩ := List.mem_map.mp hhere
          have hopened : entry ∈ opened := List.mem_of_head? (Option.mem_toList.mp hentry)
          exact ⟨Or.inl (List.mem_map_of_mem hopened), by omega, by omega⟩
        · exact absurd hhere List.not_mem_nil
      | _ => exact absurd hhere List.not_mem_nil
    · obtain ⟨hstart, hlower, hupper⟩ := ih hlater
      refine ⟨?_, by omega, by omega⟩
      rcases hstart with hopened | hinside
      · obtain ⟨entry, hentry, hstart⟩ := List.mem_map.mp hopened
        rcases mem_advance hentry with hbefore | hhere
        · exact Or.inl (List.mem_map.mpr ⟨entry, hbefore, hstart⟩)
        · exact Or.inr (by omega)
      · exact Or.inr (by omega)

/-- Scopes that stay open throughout a stream make no difference to its pairs. -/
theorem pairsFrom_of_unclosed_below {ops : List Operation}
    (h : ∀ pair ∈ pairsFrom (above ++ below) i ops, pair.1 ∉ below.map (·.2)) :
    pairsFrom (above ++ below) i ops = pairsFrom above i ops := by
  induction ops generalizing above i with
  | nil => rfl
  | cons op ops ih =>
    have hrest : ∀ above', advance (above ++ below) i op = above' ++ below →
        completed (above ++ below) i op = completed above i op → advance above i op = above' →
        pairsFrom (above ++ below) i (op :: ops) = pairsFrom above i (op :: ops) := by
      intro above' hboth hpair habove
      rw [pairsFrom_cons, hboth] at h
      rw [pairsFrom_cons, pairsFrom_cons, hboth, hpair, habove, ih]
      exact fun pair hpair => h pair (List.mem_append_right _ hpair)
    cases op with
    | scopeBegin id => exact hrest ((id, i) :: above) rfl rfl rfl
    | scopeEnd id =>
      cases above with
      | cons top outer =>
        by_cases hid : top.1 = id
        · exact hrest outer (by simp [advance, hid]) (by simp [completed]) (by simp [advance, hid])
        · exact hrest (top :: outer) (by simp [advance, hid]) (by simp [completed]) (by simp [advance, hid])
      | nil =>
        cases below with
        | nil => rfl
        | cons top outer =>
          -- the innermost scope of those below does not close here
          have hid : top.1 ≠ id := by
            rintro rfl
            refine h (top.2, i) ?_ (List.mem_cons_self)
            simp [pairsFrom_cons, completed]
          exact hrest [] (by simp [advance, hid]) (by simp [completed, hid]) (by simp [advance])
    | _ => exact hrest above rfl rfl rfl

/-- The pairs of two streams in a row, if no scope is open across the cut. -/
theorem pairs_append {xs ys : List Operation}
    (h : ∀ pair ∈ pairs i (xs ++ ys), pair.1 < i + xs.length → pair.2 < i + xs.length) :
    pairs i (xs ++ ys) = pairs i xs ++ pairs (i + xs.length) ys := by
  rw [pairs, pairsFrom_append] at h
  rw [pairs, pairsFrom_append]
  have hbelow : ∀ pair ∈ pairsFrom ([] ++ advanceAll [] i xs) (i + xs.length) ys,
      pair.1 ∉ (advanceAll [] i xs).map (·.2) := by
    intro pair hpair hopen
    obtain ⟨entry, hentry, hstart⟩ := List.mem_map.mp hopen
    have hbefore : entry.2 < i + xs.length := by
      rcases mem_advanceAll hentry with hnone | hinside
      · exact absurd hnone List.not_mem_nil
      · exact hinside.2
    have hclosed := h pair (List.mem_append_right _ hpair) (hstart ▸ hbefore)
    exact Nat.not_lt.mpr (bounds_of_mem_pairsFrom hpair).2.1 hclosed
  exact congrArg _ (pairsFrom_of_unclosed_below hbelow)

end Scope

end BorrowChecker
