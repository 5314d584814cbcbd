import BorrowChecker.Proofs.Turnover

/-!
# What a new value overwrites

A binding gives a place a new value, and whatever the place held before is lost. Its target is not looked up among the
loans: the store alone decides, by what has been moved out. A variable that starts a life holds nothing, and neither does
a part that has been moved out itself, so nothing of them is lent. But a part is also given a new value when only
something inside it has been moved out. What is still in being there lies further in than the part, beside what has been
moved out (`Store.further_in_of_declare`), and it may be lent (`lent_sibling_overwritten`).

A borrow puts its reference into the holder. The loans that stand already are looked up, and none of them is on the
holder (`unlent_of_borrow`). The new loan is passed over. A part has to be writable in spite of it, so the new
loan is not on a part either; a variable is not asked, and can be lent to itself (`variable_lent_to_itself`).
-/

namespace BorrowChecker

/-- A place that overlaps `p`, but not something inside `p`, goes further in than `p`. -/
theorem Place.length_lt_of_apart {p q r : Place} (hinside : p.isPrefixOf r = true) (hoverlap : p.overlaps q = true)
    (hapart : r.overlaps q = false) : p.path.length < q.path.length := by
  by_contra hle
  obtain ⟨hroot, rest, hpath⟩ := isPrefixOf_iff.mp hinside
  -- all steps of `q` are compared with steps of `p`, which are those of `r` as well
  rw [overlaps, ← hroot, ← hpath, Projection.zip_append_of_length_le (Nat.le_of_not_lt hle)] at hapart
  exact Bool.noConfusion (hoverlap.symm.trans hapart)

/-- What is in being where a declaration puts a value lies inside a part that has not been moved out itself. -/
theorem Store.further_in_of_declare {store store' : Store} {p q : Place} {request : DeclareRequest}
    (hdeclare : store.declare p request = .ok store') (hlive : store.Live q) (hoverlap : p.overlaps q = true) :
    p.isVar = false ∧ p ∉ store.retired ∧ p.path.length < q.path.length := by
  obtain ⟨halive, hretired⟩ := live_iff.mp hlive
  rcases declare_eq_ok_iff.mp hdeclare with ⟨-, hvar⟩ | ⟨hpart, hput⟩
  · have hdead : ¬ store.Alive p.root := (declareVar_eq_ok_iff.mp hvar).1
    rw [Place.root_of_overlaps hoverlap] at hdead
    exact absurd halive hdead
  · obtain ⟨-, -, ⟨r, hr, hinside⟩, -⟩ := reinitialise_eq_ok_iff.mp hput
    refine ⟨hpart, fun hmoved => ?_, Place.length_lt_of_apart hinside hoverlap (hretired r hr)⟩
    exact Bool.noConfusion (hoverlap.symm.trans (hretired p hmoved))

namespace Session

/-! ## Bindings -/

section Binding

variable {config : Config} {s : Session} {p : Place} {init : Init} {mutable : Bool} {perms : PermSet} {facts : TypeFacts}

/-- A loan that an accepted binding overwrites lends something inside a part that has not been moved out itself. -/
theorem further_in_of_bind (hs : Reachable config s) (hok : (s.step (.bind p init mutable perms facts)).1 = .ok)
    {loan : Loan} (hloan : loan ∈ s.refreshed.ledger.loans) (hoverlap : loan.source.overlaps p = true) :
    p.isVar = false ∧ p ∉ s.store.retired ∧ p.path.length < loan.source.path.length := by
  obtain ⟨-, hnone, -⟩ := step_accepted hok
  obtain ⟨source, store, -, hdeclare, -⟩ := bind_accepted hnone
  have hlive : s.store.Live loan.source := hs.sound.grounded loan (mem_refreshed_iff.mp hloan).1
  rw [Place.overlaps_comm] at hoverlap
  exact Store.further_in_of_declare hdeclare hlive hoverlap

/-- **A binding overwrites nothing that is lent** exactly if its target is a variable, or a part that has been moved out
itself, or a part inside which nothing is lent. -/
theorem bound_place_unlent_iff (hs : Reachable config s) (hok : (s.step (.bind p init mutable perms facts)).1 = .ok) :
    (∀ loan ∈ s.refreshed.ledger.loans, loan.source.overlaps p = false) ↔
      p.isVar = true ∨ p ∈ s.store.retired ∨
        ∀ loan ∈ s.refreshed.ledger.loans, p.path.length < loan.source.path.length → loan.source.overlaps p = false := by
  constructor
  · intro hunlent
    exact Or.inr (Or.inr fun loan hloan _ => hunlent loan hloan)
  · intro htarget loan hloan
    rw [Bool.eq_false_iff]
    intro hoverlap
    obtain ⟨hpart, hmoved, hinside⟩ := further_in_of_bind hs hok hloan hoverlap
    rcases htarget with hvar | hwhole | hfree
    · exact Bool.noConfusion (hpart.symm.trans hvar)
    · exact hmoved hwhole
    · exact Bool.noConfusion (hoverlap.symm.trans (hfree loan hloan hinside))

/-- A field is moved out and gets a new value while the record's other field is lent. -/
theorem moved_field_bound_beside_lent :
    let s := (({} : Session).stepAll [.bindFreshMut (.var ⟨0⟩),
      .borrowExclusive ⟨⟨0⟩, [.field ⟨1⟩, .field ⟨3⟩]⟩ (.var ⟨4⟩) (.scope .root),
      .move ⟨⟨0⟩, [.field ⟨1⟩, .field ⟨2⟩]⟩]).2
    let p : Place := ⟨⟨0⟩, [.field ⟨1⟩, .field ⟨2⟩]⟩
    (s.step (.bindFresh p)).1 = .ok ∧ s.refreshed.ledger.loans.map (·.source) = [⟨⟨0⟩, [.field ⟨1⟩, .field ⟨3⟩]⟩] ∧
    ∀ loan ∈ s.refreshed.ledger.loans, loan.source.overlaps p = false := by
  intro s p
  have hs : Reachable {} s := (Reachable.start {}).stepAll _
  have hok : (s.step (.bindFresh p)).1 = .ok := by decide
  exact ⟨hok, by decide, (bound_place_unlent_iff hs hok).mpr (Or.inr (Or.inl (by decide)))⟩

/-- One field of an inner record is lent and the other is moved out. Then the whole inner record is given a new value,
and the loan lives on. -/
theorem lent_sibling_overwritten :
    let s := (({} : Session).stepAll [.bindFreshMut (.var ⟨0⟩),
      .borrowExclusive ⟨⟨0⟩, [.field ⟨1⟩, .field ⟨3⟩]⟩ (.var ⟨4⟩) (.scope .root),
      .move ⟨⟨0⟩, [.field ⟨1⟩, .field ⟨2⟩]⟩]).2
    let t := s.step (.bindFresh ⟨⟨0⟩, [.field ⟨1⟩]⟩)
    t.1 = .ok ∧
    s.refreshed.ledger.loans.map (·.source.overlaps ⟨⟨0⟩, [.field ⟨1⟩]⟩) = [true] ∧
    t.2.ledger.loans = s.ledger.loans := by
  decide

end Binding

/-! ## References -/

section Reference

variable {config : Config} {s : Session} {source holder : Place} {kind : BorrowKind} {region : Region}

/-- No reference is stored where an earlier loan is taken. -/
theorem unlent_of_borrow (hledger : s.ledger.Disciplined) (hnone : (s.borrow source kind holder region).1 = none) :
    ∀ loan ∈ s.ledger.loans, loan.source.overlaps holder = false := by
  obtain ⟨stop, id, ledger, -, hlend, hprepare⟩ := borrow_accepted hnone
  obtain ⟨-, -, rfl, rfl⟩ := Ledger.borrow_eq_ok_iff.mp hlend
  intro loan hloan
  rw [Bool.eq_false_iff]
  intro hoverlap
  -- only the new loan is passed over, and its number is one that no loan has had
  refine hledger.id_ne_next hloan ((prepareHolder_cases hprepare).1 loan ?_)
  exact Ledger.mem_overlapping.mpr ⟨List.mem_append_left _ hloan, hoverlap⟩

/-- The new loan is on its own holder exactly if the holder is the variable of its source. -/
theorem overlaps_holder_iff_of_borrow (hnone : (s.borrow source kind holder region).1 = none) :
    source.overlaps holder = true ↔ holder.isVar = true ∧ source.root = holder.root := by
  obtain ⟨stop, id, ledger, -, hlend, hprepare⟩ := borrow_accepted hnone
  cases hvar : holder.isVar with
  | true =>
    rw [Place.overlaps_comm, Place.overlaps_of_isVar hvar, beq_iff_eq, eq_comm]
    exact (and_iff_right rfl).symm
  | false =>
    refine iff_of_false (fun hoverlap => ?_) fun h => Bool.noConfusion h.1
    rcases (prepareHolder_cases hprepare).2 with ⟨-, hwrite, -⟩ | ⟨hvar', -⟩ | ⟨hvar', -⟩
    · obtain ⟨-, declared, -, -, -, hunlent⟩ := checkAccess_eq_ok_iff_lent.mp hwrite
      obtain ⟨-, -, rfl, rfl⟩ := Ledger.borrow_eq_ok_iff.mp hlend
      have hapart := List.filter_eq_nil_iff.mp (hunlent (Or.inl (by decide)))
      exact hapart _ (List.mem_append_right s.ledger.loans List.mem_cons_self) hoverlap
    · exact Bool.noConfusion (hvar.symm.trans hvar')
    · exact Bool.noConfusion (hvar.symm.trans hvar')

/-- **A reference overwrites nothing that is lent**, neither by an earlier loan nor by its own, except that a variable
can be made to hold a reference into itself. -/
theorem stored_reference_unlent_iff (hs : Reachable config s)
    (hok : (s.step (.borrow source kind holder region)).1 = .ok) :
    (∀ loan ∈ s.refreshed.ledger.loans, loan.source.overlaps holder = false) ∧
    ((∀ loan ∈ (s.step (.borrow source kind holder region)).2.ledger.loans, loan.source.overlaps holder = false) ↔
      (holder.isVar = true → source.root ≠ holder.root)) := by
  obtain ⟨-, hnone, hstep⟩ := step_accepted hok
  have hunlent := unlent_of_borrow hs.refreshed_disciplined hnone
  refine ⟨hunlent, ?_⟩
  obtain ⟨stop, -, -, hcheck, -⟩ := borrow_accepted hnone
  have hloans : (s.step (.borrow source kind holder region)).2.ledger.loans =
      s.refreshed.ledger.loans ++ s.refreshed.entered (.borrow source kind holder region) := by
    rw [hstep]
    exact loans_borrow hnone
  rw [hloans, entered, (checkBorrow_eq_ok_iff.mp hcheck).1, List.forall_mem_append, and_iff_right hunlent]
  rw [← not_and, ← overlaps_holder_iff_of_borrow hnone, Bool.not_eq_true]
  simp

/-- A reference to one field of a variable is stored into another of its fields, beside a loan on a third. -/
theorem field_lent_to_sibling :
    let s := (({} : Session).stepAll [.bindFreshMut (.var ⟨0⟩),
      .borrowExclusive ⟨⟨0⟩, [.field ⟨1⟩]⟩ (.var ⟨4⟩) (.scope .root)]).2
    let op : Operation := .borrowShared ⟨⟨0⟩, [.field ⟨2⟩]⟩ ⟨⟨0⟩, [.field ⟨3⟩]⟩ (.scope .root)
    (s.step op).1 = .ok ∧
    (s.step op).2.ledger.loans.map (·.source) = [⟨⟨0⟩, [.field ⟨1⟩]⟩, ⟨⟨0⟩, [.field ⟨2⟩]⟩] ∧
    ∀ loan ∈ (s.step op).2.ledger.loans, loan.source.overlaps ⟨⟨0⟩, [.field ⟨3⟩]⟩ = false := by
  intro s op
  have hs : Reachable {} s := (Reachable.start {}).stepAll _
  have hok : (s.step op).1 = .ok := by decide
  exact ⟨hok, by decide, (stored_reference_unlent_iff hs hok).2.mpr (fun hvar => absurd hvar (by decide))⟩

/-- A mutable variable is made to hold an exclusive reference to itself, and from then on it cannot even be read. -/
theorem variable_lent_to_itself :
    let s := (({} : Session).step (.bindFreshMut (.var ⟨0⟩))).2
    let t := s.step (.borrowExclusive (.var ⟨0⟩) (.var ⟨0⟩) (.scope .root))
    t.1 = .ok ∧ t.2.ledger.loans.map (·.source.overlaps (.var ⟨0⟩)) = [true] ∧
    (t.2.step (.read (.var ⟨0⟩))).1 ≠ .ok := by
  decide

end Reference

end Session

end BorrowChecker
