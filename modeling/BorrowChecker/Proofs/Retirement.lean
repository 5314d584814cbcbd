import BorrowChecker.Proofs.Access
import BorrowChecker.Proofs.Reachable

/-!
# Retirement is exact and permanent

An operation that moves a value out or drops it ends the life of the places that overlap it, and of no others. They
stay without life until a place on the way to the one that was moved out is declared again, whatever happens in between:
the place stays vacant, because a vacancy survives every small change but such a declaration.
-/

namespace BorrowChecker

namespace Registry

theorem store_withdraw (r : Registry) (p : Place) : (r.withdraw p).store = r.store.retire p := rfl

/-- Moving a value elsewhere ends its life where it was. -/
theorem store_relocate (r : Registry) (source target : Place) (isReference : Bool) :
    (r.relocate source target isReference).store = r.store.retire source := by
  cases isReference <;> rfl

theorem store_bury (r : Registry) (p : Place) : (r.bury p).2.store = r.store.retire p := rfl

theorem vacant_buryAll {p : Place} (ps : List Place) (r : Registry) (h : p ∈ ps ∨ r.store.Vacant p) :
    (r.buryAll ps).2.store.Vacant p := by
  induction ps generalizing r with
  | nil => exact h.resolve_left List.not_mem_nil
  | cons q ps ih =>
    refine ih (r.bury q).2 ?_
    rw [store_bury]
    rcases h with hmem | hvacant
    · rcases List.mem_cons.mp hmem with rfl | hmem
      · exact Or.inr Store.vacant_retire
      · exact Or.inl hmem
    · exact Or.inr (hvacant.retire q)

/-- A vacancy is filled by a declaration on the way to it and by nothing else. -/
theorem Change.vacant {declared : Place → Prop} {p : Place} (hp : ∀ d, declared d → d.isPrefixOf p = false)
    {r r' : Registry} (hchange : Change declared r r') (h : r.store.Vacant p) : r'.store.Vacant p := by
  cases hchange with
  | declare hdeclared hstore => exact h.declare hstore (hp _ hdeclared)
  | describe hstore =>
    obtain ⟨-, rfl⟩ := Store.registerFacts_eq_ok_iff.mp hstore
    exact h
  | assign hstore =>
    have halive := fun x => Store.alive_assignHolder (x := x) hstore
    exact (Store.vacant_congr halive (Store.retired_of_assignHolder hstore)).mpr h
  | retire _ _ => exact h.retire _
  | enter | lend | depart | rehome | cut => exact h

end Registry

/-- The place that an operation asks to use, by the rule that it has to be in being. -/
def Operation.used? : Operation → Option Place
  | .access p _ | .mutate p | .move p | .copy p | .drop p | .split p _ | .borrow p _ _ _ => some p
  | _ => none

namespace Session

variable {s t : Session} {p : Place}

/-- The operation takes the value of `p` away: it moves or drops it, or copies what cannot be duplicated. -/
def Withdraws (s : Session) (p : Place) : Operation → Prop
  | .move q | .drop q => q = p
  | .copy q => q = p ∧ (s.factsOf q).duplicable = false
  | _ => False

theorem apply_withdraws {op : Operation} (hop : s.Withdraws p op) (hok : (s.apply op).1 = none) :
    (s.apply op).2 = { s with registry := s.registry.withdraw p } := by
  cases op with
  | move q =>
    obtain rfl : q = p := hop
    obtain ⟨-, -, hmoved⟩ := guarded_accepted hok
    exact hmoved
  | drop q =>
    obtain rfl : q = p := hop
    obtain ⟨-, -, hdropped⟩ := guarded_accepted hok
    exact hdropped
  | copy q =>
    obtain ⟨rfl, hdup⟩ : q = p ∧ (s.factsOf q).duplicable = false := hop
    obtain ⟨moves, hcheck, hcopied⟩ := guarded_accepted hok
    rcases checkCopy_eq_ok_iff.mp hcheck with ⟨hdup', -⟩ | ⟨-, rfl, -⟩
    · rw [hdup] at hdup'
      exact Bool.noConfusion hdup'
    · exact hcopied
  | _ => exact hop.elim

theorem store_step_withdraws {op : Operation} (hop : s.Withdraws p op) (hok : (s.step op).1 = .ok) :
    (s.step op).2.store = s.store.retire p := by
  obtain ⟨-, hnone, hstep⟩ := step_accepted hok
  -- what is known of a value does not depend on the loans that have run out
  have hrefreshed : s.refreshed.Withdraws p op := by cases op <;> exact hop
  have happly := apply_withdraws hrefreshed hnone
  rw [hstep, store, happly]
  exact s.refreshed.registry.store_withdraw p

/-! ## What is not in being is not used -/

/-- An accepted operation uses live storage only. -/
theorem live_of_used {op : Operation} {q : Place} (hq : op.used? = some q) (hok : (s.step op).1 = .ok) :
    s.store.Live q := by
  have hnone : (s.refreshed.apply op).1 = none := (step_accepted hok).2.1
  have haccessed : op.accessed? = some q → s.store.Live q := fun hop =>
    (checkLive_eq_ok_iff.mp (checkLive_of_accessed hop hnone)).2
  cases op with
  | access p needs => exact haccessed hq
  | mutate p => exact haccessed hq
  | move p => exact haccessed hq
  | copy p => exact haccessed hq
  | drop p => exact haccessed hq
  | split array boundary =>
    cases hq
    obtain ⟨_, hcheck, -⟩ := guarded_accepted hnone
    exact (checkLive_eq_ok_iff.mp hcheck).2
  | borrow source kind holder region =>
    cases hq
    rcases s.refreshed.borrow_cases q kind holder region with ⟨fault, -, hborrow⟩ | ⟨stop, hcheck, -⟩
    · rw [apply, hborrow] at hnone
      exact absurd hnone (by simp)
    · obtain ⟨-, hlive, -⟩ := checkBorrow_eq_ok_iff.mp hcheck
      exact (checkLive_eq_ok_iff.mp hlive).2
  | _ => exact absurd hq (by simp [Operation.used?])

/-- A vacant place stays vacant while no place on the way to it is declared. -/
theorem Later.vacant (hlater : Later (fun t op => ∀ d, t.Declares op d → d.isPrefixOf p = false) s t)
    (h : s.store.Vacant p) : t.store.Vacant p :=
  hlater.invariant (fun _ _ hallowed _ _ hchange => hchange.vacant hallowed) h

/-- **Retirement is exact and permanent.** After an accepted operation that takes the value of `p` away, the live places
are those that were live before and do not overlap `p`. From then on, as long as no step declares a place on the way to
`p`, no place that overlaps `p` is live and no operation that uses one is accepted. -/
theorem retirement_exact_and_permanent {op : Operation} (hop : s.Withdraws p op) (hok : (s.step op).1 = .ok) :
    (∀ q, ((s.step op).2.store.checkLive q).isOk = true ↔
      (s.store.checkLive q).isOk = true ∧ p.overlaps q = false) ∧
    ∀ u, Later (fun t op' => ∀ d, t.Declares op' d → d.isPrefixOf p = false) (s.step op).2 u →
      ∀ q, p.overlaps q = true →
        (u.store.checkLive q).isOk = false ∧ ∀ use, use.used? = some q → (u.step use).1 ≠ .ok := by
  have hstore := store_step_withdraws hop hok
  refine ⟨fun q => ?_, fun u hlater q hoverlap => ?_⟩
  · rw [hstore]
    exact Store.live_retire_iff
  · have hvacant : u.store.Vacant p := hlater.vacant (by rw [hstore]; exact Store.vacant_retire)
    have hdead : ¬ u.store.Live q := hvacant.not_live hoverlap
    exact ⟨Bool.eq_false_iff.mpr hdead, fun use hused huse => hdead (live_of_used hused huse)⟩

/-- Once a field has been moved out, its sibling is live and the whole variable is not, also after a further binding. -/
theorem moved_field_leaves_sibling :
    let s := (({} : Session).step (.bindFreshMut (.var ⟨0⟩))).2
    let t := (s.step (.move ⟨⟨0⟩, [.field ⟨1⟩]⟩)).2
    let u := (t.step (.bindFresh (.var ⟨3⟩))).2
    (s.step (.move ⟨⟨0⟩, [.field ⟨1⟩]⟩)).1 = .ok ∧
    (t.store.checkLive ⟨⟨0⟩, [.field ⟨2⟩]⟩).isOk = true ∧
    (u.store.checkLive (.var ⟨0⟩)).isOk = false ∧ (u.step (.drop (.var ⟨0⟩))).1 ≠ .ok := by
  intro s t u
  have hok : (s.step (.move ⟨⟨0⟩, [.field ⟨1⟩]⟩)).1 = .ok := by decide
  have hmoves : s.Withdraws ⟨⟨0⟩, [.field ⟨1⟩]⟩ (.move ⟨⟨0⟩, [.field ⟨1⟩]⟩) := rfl
  obtain ⟨hexact, hpermanent⟩ := retirement_exact_and_permanent hmoves hok
  have hdeclares : ∀ d, t.Declares (.bindFresh (.var ⟨3⟩)) d → d.isPrefixOf ⟨⟨0⟩, [.field ⟨1⟩]⟩ = false := by
    rintro d ⟨-, hd, -⟩
    cases hd
    decide
  have hwhole := hpermanent u (.step .refl hdeclares) (.var ⟨0⟩) (by decide)
  exact ⟨hok, (hexact _).mpr ⟨by decide, by decide⟩, hwhole.1, hwhole.2 _ rfl⟩

end Session

end BorrowChecker
