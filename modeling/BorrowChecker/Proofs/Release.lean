import BorrowChecker.Proofs.Ledger
import BorrowChecker.Variable.Store

/-!
# Released loans leave no trace

A ledger keeps nothing but its live loans, so a loan that was made and has gone might as well not have been made. Take a
history of calls with a loan in it that is gone at the end, and the same history without that loan. At every point the
second ledger is the first without the loan, and with later loans numbered one lower (`Without`). It has fewer loans, and
fewer loans stand in no one's way, so whatever the first accepts the second does (`Without.call`).

Calls that take loans out keep the loans that fail a test (`call_of_ends`), and tests can be made in any order.
-/

namespace BorrowChecker

namespace Ledger

/-! ## Calls -/

/-- One call on a ledger. -/
inductive Call where
  | borrow (request : LoanRequest) (nesting : Nesting)
  | release (id : LoanId)
  | expire (now : Nat)
  | releaseScope (id : ScopeId)
  | releaseHeldBy (holder : Place)
  | transfer (source target : Place)
deriving DecidableEq, Repr

/-- The ledger after a call, if the call goes through. Only a borrow can be refused. -/
def call (ledger : Ledger) : Call → Option Ledger
  | .borrow request nesting => (ledger.borrow request nesting).toOption.map (·.2)
  | .release id => some (ledger.release id).2
  | .expire now => some (ledger.expire now).2
  | .releaseScope id => some (ledger.releaseScope id).2
  | .releaseHeldBy holder => some (ledger.releaseHeldBy holder).2
  | .transfer source target => some (ledger.transfer source target).2

/-- The ledger after a history of calls that all go through. -/
def callAll (ledger : Ledger) : List Call → Option Ledger
  | [] => some ledger
  | c :: calls => (ledger.call c).bind (·.callAll calls)

/-- The loans that a call takes out, for the calls that do nothing else. -/
def Call.ends? : Call → Option (Loan → Bool)
  | .release id => some (·.id == id)
  | .expire now => some (expired now)
  | .releaseScope id => some (·.region == .scope id)
  | .releaseHeldBy holder => some (holder.isPrefixOf ·.holder)
  | .borrow _ _ | .transfer _ _ => none

variable {ledger ledger' : Ledger}

theorem callAll_append (xs ys : List Call) : ledger.callAll (xs ++ ys) = (ledger.callAll xs).bind (·.callAll ys) := by
  induction xs generalizing ledger with
  | nil => rfl
  | cons c xs ih =>
    rw [List.cons_append, callAll, callAll, Option.bind_assoc]
    congr 1
    funext next
    exact ih

theorem call_borrow_eq_some_iff {request : LoanRequest} {nesting : Nesting} :
    ledger.call (.borrow request nesting) = some ledger' ↔
      ledger.obstacle? request.source request.kind = none ∧
      (ledger.parents request.source).find? (!nesting.nests request.stop ·.stop) = none ∧
      ledger' = ⟨ledger.loans ++ [{ request with id := ⟨ledger.nextId⟩ }], ledger.nextId + 1⟩ := by
  have hcall : ledger.call (.borrow request nesting) = some ledger' ↔
      ∃ id, ledger.borrow request nesting = .ok (id, ledger') := by
    rw [call]
    cases ledger.borrow request nesting with
    | error e => simp [Except.toOption]
    | ok result => simp [Except.toOption, Prod.ext_iff]
  rw [hcall]
  constructor
  · rintro ⟨id, hborrow⟩
    obtain ⟨hobstacle, hparents, rfl, rfl⟩ := borrow_eq_ok_iff.mp hborrow
    exact ⟨hobstacle, hparents, rfl⟩
  · rintro ⟨hobstacle, hparents, rfl⟩
    exact ⟨⟨ledger.nextId⟩, borrow_eq_ok_iff.mpr ⟨hobstacle, hparents, rfl, rfl⟩⟩

/-- With distinct numbers, every call that takes loans out keeps those that fail its test. -/
theorem call_of_ends (hledger : ledger.Disciplined) {c : Call} {gone : Loan → Bool} (h : c.ends? = some gone) :
    ledger.call c = some { ledger with loans := ledger.loans.filter (!gone ·) } := by
  cases c with
  | borrow request nesting => exact absurd h (by simp [Call.ends?])
  | transfer source target => exact absurd h (by simp [Call.ends?])
  | release id =>
    cases h
    rw [call, release, eraseP_eq_filter hledger.nodup_ids]
  | expire now =>
    cases h
    exact congrArg some (snd_releaseWhere _ _)
  | releaseScope id =>
    cases h
    exact congrArg some (snd_releaseWhere _ _)
  | releaseHeldBy holder =>
    cases h
    exact congrArg some (hledger.snd_releaseHeldBy holder)

theorem Disciplined.call (hledger : ledger.Disciplined) {c : Call} (h : ledger.call c = some ledger') :
    ledger'.Disciplined := by
  cases hends : c.ends? with
  | some gone =>
    rw [call_of_ends hledger hends, Option.some.injEq] at h
    rw [← h]
    exact hledger.of_sublist List.filter_sublist
  | none =>
    cases c with
    | borrow request nesting =>
      obtain ⟨hobstacle, hparents, rfl⟩ := call_borrow_eq_some_iff.mp h
      exact hledger.borrow (borrow_eq_ok_iff.mpr ⟨hobstacle, hparents, rfl, rfl⟩)
    | transfer source target =>
      cases h
      exact hledger.transfer source target
    | _ => exact absurd hends (by simp [Call.ends?])

theorem Disciplined.callAll (hledger : ledger.Disciplined) {calls : List Call} (h : ledger.callAll calls = some ledger') :
    ledger'.Disciplined := by
  induction calls generalizing ledger with
  | nil =>
    cases h
    exact hledger
  | cons c calls ih =>
    obtain ⟨next, hcall, hrest⟩ := Option.bind_eq_some_iff.mp h
    exact ih (hledger.call hcall) hrest

/-! ## The same calls without one loan -/

end Ledger

/-- The number that a loan has if the loan `gone` is never made. -/
def LoanId.without (id gone : LoanId) : LoanId := if id.number < gone.number then id else ⟨id.number - 1⟩

theorem LoanId.number_without (id gone : LoanId) :
    (id.without gone).number = if id.number < gone.number then id.number else id.number - 1 :=
  apply_ite LoanId.number _ _ _

theorem LoanId.without_inj {gone a b : LoanId} (ha : a ≠ gone) (hb : b ≠ gone) :
    a.without gone = b.without gone ↔ a = b := by
  have hne : ∀ {id : LoanId}, id ≠ gone → id.number ≠ gone.number := by
    rintro ⟨n⟩ hid rfl
    exact hid rfl
  have hext : ∀ x y : LoanId, x = y ↔ x.number = y.number := by
    rintro ⟨m⟩ ⟨n⟩
    simp
  have ha := hne ha
  have hb := hne hb
  rw [hext, hext, number_without, number_without]
  split <;> split <;> omega

def Loan.without (loan : Loan) (gone : LoanId) : Loan := { loan with id := loan.id.without gone }

namespace Ledger

/-- The call that stands for `c` if the loan `gone` is never made. The release of that loan is left out, and the releases
of others are about the same loans as before. -/
def Call.without (gone : LoanId) : Call → Option Call
  | .release id => if id = gone then none else some (.release (id.without gone))
  | c => some c

/-- The second ledger is the first without the loan `gone`, which has been made. -/
structure Without (gone : LoanId) (full rest : Ledger) : Prop where
  issued : gone.number < full.nextId
  next : full.nextId = rest.nextId + 1
  loans : rest.loans = (full.loans.filter (·.id != gone)).map (·.without gone)

variable {gone : LoanId} {ledger ledger' full full' rest : Ledger}

namespace Without

/-- Every loan of the smaller ledger is one of the larger, under another number. -/
theorem exists_of_mem (h : Without gone full rest) {loan : Loan} (hloan : loan ∈ rest.loans) :
    ∃ old ∈ full.loans, old.toLoanRequest = loan.toLoanRequest := by
  rw [h.loans] at hloan
  obtain ⟨old, hold, rfl⟩ := List.mem_map.mp hloan
  exact ⟨old, List.mem_of_mem_filter hold, rfl⟩

/-- Loans are taken out of both by tests that agree on the loans that both have. -/
theorem filter (h : Without gone full rest) (ends ends' : Loan → Bool)
    (hagree : ∀ loan, loan.id ≠ gone → ends' (loan.without gone) = ends loan) :
    Without gone { full with loans := full.loans.filter (!ends ·) }
      { rest with loans := rest.loans.filter (!ends' ·) } := by
  refine ⟨h.issued, h.next, ?_⟩
  simp only [h.loans, List.filter_map, List.filter_filter, Function.comp_def]
  congr 1
  refine List.filter_congr fun loan _ => ?_
  by_cases hid : loan.id = gone
  · simp [hid]
  · rw [hagree loan hid, Bool.and_comm]

theorem release_gone (h : Without gone full rest) :
    Without gone { full with loans := full.loans.filter (!·.id == gone) } rest := by
  refine ⟨h.issued, h.next, ?_⟩
  rw [h.loans, List.filter_filter]
  congr 1
  refine List.filter_congr fun loan _ => ?_
  simp [bne]

theorem transfer (h : Without gone full rest) (source target : Place) :
    Without gone (full.transfer source target).2 (rest.transfer source target).2 := by
  refine ⟨h.issued, h.next, ?_⟩
  -- changing hands leaves the number as it is
  have hid : ∀ loan : Loan, (if loan.holder = source then { loan with holder := target } else loan).id = loan.id := by
    intro loan
    split <;> rfl
  simp only [Ledger.transfer, h.loans, List.filter_map, List.map_map, Function.comp_def, hid]
  congr 1
  funext loan
  by_cases hholder : loan.holder = source
  · simp [Loan.without, hholder]
  · simp [Loan.without, hholder]

/-- Fewer loans stand in the way of fewer. -/
theorem borrow (h : Without gone full rest) {request : LoanRequest} {nesting : Nesting}
    (hborrow : full.call (.borrow request nesting) = some full') :
    ∃ rest', rest.call (.borrow request nesting) = some rest' ∧ Without gone full' rest' := by
  obtain ⟨hobstacle, hparents, rfl⟩ := call_borrow_eq_some_iff.mp hborrow
  have hobstacle' : rest.obstacle? request.source request.kind = none := by
    rw [obstacle?_eq_none_iff] at hobstacle ⊢
    intro loan hloan
    obtain ⟨old, hold, hsame⟩ := h.exists_of_mem hloan
    rw [← hsame]
    exact hobstacle old hold
  have hparents' : (rest.parents request.source).find? (!nesting.nests request.stop ·.stop) = none := by
    rw [List.find?_eq_none] at hparents ⊢
    intro loan hloan
    obtain ⟨hmem, hholder⟩ := mem_parents.mp hloan
    obtain ⟨old, hold, hsame⟩ := h.exists_of_mem hmem
    rw [← hsame] at hholder ⊢
    exact hparents old (mem_parents.mpr ⟨hold, hholder⟩)
  refine ⟨_, call_borrow_eq_some_iff.mpr ⟨hobstacle', hparents', rfl⟩, ?_⟩
  have hnew : (⟨full.nextId⟩ : LoanId) ≠ gone := by
    rintro rfl
    exact Nat.lt_irrefl _ h.issued
  have hnumber : (⟨full.nextId⟩ : LoanId).without gone = ⟨rest.nextId⟩ := by
    have hissued := h.issued
    rw [LoanId.without, if_neg (Nat.lt_asymm hissued), h.next]
    rfl
  refine ⟨Nat.lt_succ_of_lt h.issued, congrArg (· + 1) h.next, ?_⟩
  simp [h.loans, hnew, Loan.without, hnumber]

/-- A call that the larger ledger accepts, the smaller one accepts, and stays behind by the same loan. -/
theorem call (h : Without gone full rest) (hfull : full.Disciplined) (hrest : rest.Disciplined) {c : Call}
    (hcall : full.call c = some full') :
    ∃ rest', rest.callAll (c.without gone).toList = some rest' ∧ Without gone full' rest' := by
  have hsame : ∀ {ends : Loan → Bool}, c.ends? = some ends → c.without gone = some c →
      (∀ loan : Loan, ends (loan.without gone) = ends loan) →
      ∃ rest', rest.callAll (c.without gone).toList = some rest' ∧ Without gone full' rest' := by
    intro ends hends hc hagree
    rw [call_of_ends hfull hends, Option.some.injEq] at hcall
    rw [← hcall, hc]
    refine ⟨_, ?_, h.filter _ _ fun loan _ => hagree loan⟩
    rw [Option.toList_some, callAll, call_of_ends hrest hends]
    rfl
  cases c with
  | borrow request nesting =>
    obtain ⟨rest', hborrow, hwithout⟩ := h.borrow hcall
    exact ⟨rest', by simp [Call.without, callAll, hborrow], hwithout⟩
  | transfer source target =>
    cases hcall
    exact ⟨_, rfl, h.transfer source target⟩
  | release id =>
    rw [call_of_ends hfull rfl, Option.some.injEq] at hcall
    rw [← hcall, Call.without]
    split
    next hid =>
      subst hid
      exact ⟨rest, rfl, h.release_gone⟩
    next hid =>
      have hagree : ∀ loan : Loan, loan.id ≠ gone → ((loan.without gone).id == id.without gone) = (loan.id == id) := by
        intro loan hloan
        rw [Bool.eq_iff_iff, beq_iff_eq, beq_iff_eq]
        exact LoanId.without_inj hloan hid
      refine ⟨_, ?_, h.filter _ (·.id == id.without gone) hagree⟩
      rw [Option.toList_some, callAll, call_of_ends hrest rfl]
      rfl
  | expire now => exact hsame rfl rfl fun _ => rfl
  | releaseScope id => exact hsame rfl rfl fun _ => rfl
  | releaseHeldBy holder => exact hsame rfl rfl fun _ => rfl

theorem callAll (h : Without gone full rest) (hfull : full.Disciplined) (hrest : rest.Disciplined) {calls : List Call}
    (hcalls : full.callAll calls = some full') :
    ∃ rest', rest.callAll (calls.filterMap (Call.without gone)) = some rest' ∧ Without gone full' rest' := by
  induction calls generalizing full rest with
  | nil =>
    cases hcalls
    exact ⟨rest, rfl, h⟩
  | cons c calls ih =>
    obtain ⟨next, hcall, hlater⟩ := Option.bind_eq_some_iff.mp hcalls
    obtain ⟨rest₁, hfirst, hwithout⟩ := h.call hfull hrest hcall
    obtain ⟨rest₂, hsecond, hwithout'⟩ := ih hwithout (hfull.call hcall) (hrest.callAll hfirst) hlater
    refine ⟨rest₂, ?_, hwithout'⟩
    have hcons : (c :: calls).filterMap (Call.without gone) =
        (c.without gone).toList ++ calls.filterMap (Call.without gone) := by
      rw [List.filterMap_cons]
      cases c.without gone <;> rfl
    rw [hcons, callAll_append, hfirst]
    exact hsecond

end Without

/-- A loan that has just been made is what the ledger had not before. -/
theorem without_of_borrow (hledger : ledger.Disciplined) {request : LoanRequest} {nesting : Nesting}
    (h : ledger.call (.borrow request nesting) = some ledger') : Without ⟨ledger.nextId⟩ ledger' ledger := by
  obtain ⟨-, -, rfl⟩ := call_borrow_eq_some_iff.mp h
  refine ⟨Nat.lt_succ_self _, rfl, ?_⟩
  have hothers : ledger.loans.filter (·.id != ⟨ledger.nextId⟩) = ledger.loans := by
    rw [List.filter_eq_self]
    intro loan hloan
    have hlt := hledger.bounded loan hloan
    rw [bne_iff_ne]
    intro hid
    rw [hid] at hlt
    exact Nat.lt_irrefl _ hlt
  have hnumbers : ledger.loans.map (·.without ⟨ledger.nextId⟩) = ledger.loans := by
    refine (List.map_congr_left fun loan hloan => ?_).trans (List.map_id _)
    rw [Loan.without, LoanId.without, if_pos (hledger.bounded loan hloan)]
    rfl
  simp [List.filter_append, hothers, hnumbers]

/-! ## What is left -/

theorem suspended_congr (h : ledger'.loans.map (·.toLoanRequest) = ledger.loans.map (·.toLoanRequest)) (p : Place) :
    ledger'.suspended p = ledger.suspended p := by
  -- what loans suspend is read off what was asked for
  have hsuspended : ∀ l : Ledger, l.suspended p =
      ((l.loans.map (·.toLoanRequest)).filter (·.source.overlaps p)).foldl
        (fun perms request => perms ∪ request.kind.suspends) ∅ := by
    intro l
    rw [suspended, overlapping, List.filter_map, List.foldl_map]
    rfl
  rw [hsuspended, hsuspended, h]

theorem permissions_congr (store : Store) {p : Place} (h : ledger'.suspended p = ledger.suspended p) :
    store.permissions ledger' p = store.permissions ledger p := by
  rw [Store.permissions, Store.permissions, h]

theorem Without.requests (h : Without gone full rest) (hgone : full.get? gone = none) :
    rest.loans.map (·.toLoanRequest) = full.loans.map (·.toLoanRequest) := by
  have hothers : full.loans.filter (·.id != gone) = full.loans := by
    rw [List.filter_eq_self]
    intro loan hloan
    exact bne_iff_ne.mpr fun hid => List.find?_eq_none.mp hgone loan hloan (beq_iff_eq.mpr hid)
  rw [h.loans, hothers, List.map_map]
  rfl

/-! ## Order -/

theorem call_comm (hledger : ledger.Disciplined) {c d : Call} (hc : c.ends?.isSome = true) (hd : d.ends?.isSome = true) :
    (ledger.call c).bind (·.call d) = (ledger.call d).bind (·.call c) := by
  obtain ⟨f, hf⟩ := Option.isSome_iff_exists.mp hc
  obtain ⟨g, hg⟩ := Option.isSome_iff_exists.mp hd
  rw [call_of_ends hledger hf, call_of_ends hledger hg, Option.bind_some, Option.bind_some,
    call_of_ends (hledger.of_sublist List.filter_sublist) hf, call_of_ends (hledger.of_sublist List.filter_sublist) hg]
  simp only [List.filter_filter, Bool.and_comm]

theorem callAll_perm (hledger : ledger.Disciplined) {calls calls' : List Call} (hperm : calls.Perm calls')
    (hends : ∀ c ∈ calls, c.ends?.isSome = true) : ledger.callAll calls = ledger.callAll calls' := by
  induction hperm generalizing ledger with
  | nil => rfl
  | cons c hperm ih =>
    rw [callAll, callAll]
    refine Option.bind_congr fun next hnext => ?_
    exact ih (hledger.call hnext) fun d hd => hends d (List.mem_cons_of_mem _ hd)
  | swap c d calls =>
    have hcomm := call_comm hledger (hends d List.mem_cons_self) (hends c (List.mem_cons_of_mem _ List.mem_cons_self))
    simp only [callAll, ← Option.bind_assoc, hcomm]
  | trans hperm hperm' ih ih' =>
    exact (ih hledger hends).trans (ih' hledger fun c hc => hends c (hperm.mem_iff.mpr hc))

/-- **A released loan leaves no trace.** Take any history of calls on a new ledger in which every borrow succeeds, and a
loan made in it that is gone at the end. In the history without that loan every borrow succeeds as well, and it ends with
the same loans in the same order, up to their numbers; so the same permissions are suspended, and every store permits the
same on every place. The order of calls that only take loans out makes no difference anywhere in a history. -/
theorem released_loan_leaves_no_trace {before after : List Call} {request : LoanRequest} {nesting : Nesting}
    {mid final : Ledger} (hbefore : ({} : Ledger).callAll before = some mid)
    (hafter : ({} : Ledger).callAll (before ++ .borrow request nesting :: after) = some final)
    (hgone : final.get? ⟨mid.nextId⟩ = none) :
    (∃ other, ({} : Ledger).callAll (before ++ after.filterMap (Call.without ⟨mid.nextId⟩)) = some other ∧
      other.loans.map (·.toLoanRequest) = final.loans.map (·.toLoanRequest) ∧
      (∀ p, other.suspended p = final.suspended p) ∧
      ∀ (store : Store) (p : Place), store.permissions other p = store.permissions final p) ∧
    ∀ earlier ends ends' later : List Call, ends.Perm ends' → (∀ c ∈ ends, c.ends?.isSome = true) →
      ({} : Ledger).callAll (earlier ++ ends ++ later) = ({} : Ledger).callAll (earlier ++ ends' ++ later) := by
  have hmid : mid.Disciplined := disciplined_empty.callAll hbefore
  refine ⟨?_, fun earlier ends ends' later hperm hends => ?_⟩
  · rw [callAll_append, hbefore, Option.bind_some] at hafter
    obtain ⟨lent, hlent, hrest⟩ := Option.bind_eq_some_iff.mp hafter
    obtain ⟨other, hother, hwithout⟩ := (without_of_borrow hmid hlent).callAll (hmid.call hlent) hmid hrest
    have hrequests := hwithout.requests hgone
    have hsuspended := suspended_congr hrequests
    refine ⟨other, ?_, hrequests, hsuspended, fun store p => permissions_congr store (hsuspended p)⟩
    rw [callAll_append, hbefore]
    exact hother
  · rw [callAll_append, callAll_append, callAll_append, callAll_append]
    congr 1
    refine Option.bind_congr fun ledger hledger => ?_
    exact callAll_perm (disciplined_empty.callAll hledger) hperm hends

/-- A shared loan of a whole variable, between loans of its parts: it changes hands, something is lent through it, and it
runs out before one of the parts is lent exclusively. -/
theorem loan_of_whole_among_loans_of_parts :
    let before : List Call :=
      [.borrow ⟨⟨⟨0⟩, [.field ⟨1⟩]⟩, .shared, .var ⟨10⟩, .scope .root, lastIndex, 0⟩ .strict]
    let request : LoanRequest := ⟨.var ⟨0⟩, .shared, .var ⟨11⟩, .span 1 5, 5, 1⟩
    let after : List Call :=
      [.borrow ⟨⟨⟨0⟩, [.field ⟨2⟩]⟩, .shared, .var ⟨12⟩, .scope .root, lastIndex, 2⟩ .strict,
        .transfer (.var ⟨11⟩) (.var ⟨13⟩),
        .borrow ⟨⟨⟨13⟩, [.deref]⟩, .exclusive, .var ⟨14⟩, .span 3 4, 4, 3⟩ .strict,
        .release ⟨3⟩, .expire 6,
        .borrow ⟨⟨⟨0⟩, [.field ⟨3⟩]⟩, .exclusive, .var ⟨14⟩, .scope .root, lastIndex, 6⟩ .strict]
    ∃ final, ({} : Ledger).callAll (before ++ .borrow request .strict :: after) = some final ∧
      final.loans.map (·.id.number) = [0, 2, 4] ∧
      ∃ other, ({} : Ledger).callAll (before ++ after.filterMap (Call.without ⟨1⟩)) = some other ∧
        other.loans.map (·.id.number) = [0, 1, 3] ∧
        other.loans.map (·.toLoanRequest) = final.loans.map (·.toLoanRequest) := by
  intro before request after
  obtain ⟨mid, hbefore, hnext⟩ : ∃ mid, ({} : Ledger).callAll before = some mid ∧ mid.nextId = 1 := ⟨_, rfl, rfl⟩
  obtain ⟨final, hafter, hgone, hfinal⟩ : ∃ final,
      ({} : Ledger).callAll (before ++ .borrow request .strict :: after) = some final ∧
      final.get? ⟨1⟩ = none ∧ final.loans.map (·.id.number) = [0, 2, 4] := ⟨_, rfl, by decide, by decide⟩
  rw [← hnext] at hgone
  obtain ⟨⟨other, hother, hsame, -⟩, -⟩ := released_loan_leaves_no_trace hbefore hafter hgone
  rw [hnext] at hother
  have hnumbers : (({} : Ledger).callAll (before ++ after.filterMap (Call.without ⟨1⟩))).map
      (·.loans.map (·.id.number)) = some [0, 1, 3] := by decide
  rw [hother] at hnumbers
  exact ⟨final, hafter, hfinal, other, hother, Option.some.inj hnumbers, hsame⟩

end Ledger

end BorrowChecker
