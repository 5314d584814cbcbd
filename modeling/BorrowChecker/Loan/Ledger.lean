import BorrowChecker.Loan.Sweep

/-!
# The ledger of live loans

Live loans stand in the order in which they were made, which is also the order of their numbers: the oldest
loan that answers a question comes first and the latest last. Loans leave one by one or in bulk, and a number is
never given twice.
-/

namespace BorrowChecker

/-- The live loans, the oldest first, and the number of the next one. -/
structure Ledger where
  loans : List Loan := []
  nextId : Nat := 0
deriving DecidableEq, Repr, Inhabited

namespace Ledger

/-! ## Questions -/

def get? (ledger : Ledger) (id : LoanId) : Option Loan :=
  ledger.loans.find? (·.id == id)

/-- The loans that lend storage which `p` may name. -/
def overlapping (ledger : Ledger) (p : Place) : List Loan :=
  ledger.loans.filter (·.source.overlaps p)

/-- The loans held at `p` or on the way to it: a borrow of `p` goes through them. -/
def parents (ledger : Ledger) (p : Place) : List Loan :=
  ledger.loans.filter (·.holder.isPrefixOf p)

/-- The oldest loan that does not let a loan of this kind on `p` stand beside it. -/
def obstacle? (ledger : Ledger) (p : Place) (kind : BorrowKind) : Option Loan :=
  (ledger.overlapping p).find? (!·.kind.compatible kind)

/-- The permissions on `p` that the loans on it take away. -/
def suspended (ledger : Ledger) (p : Place) : PermSet :=
  (ledger.overlapping p).foldl (fun perms loan => perms ∪ loan.kind.suspends) ∅

/-- The latest loan that takes one of the permissions `needs` on `p` away. -/
def blocking? (ledger : Ledger) (p : Place) (needs : PermSet) : Option Loan :=
  ((ledger.overlapping p).filter fun loan => loan.kind.suspends ∩ needs ≠ ∅).getLast?

/-! ## Lending and releasing -/

/-- Enters a loan, unless one on overlapping storage excludes it or it would outlive a loan it goes through. -/
def borrow (ledger : Ledger) (request : LoanRequest) (nesting : Nesting) :
    Except LoanError (LoanId × Ledger) :=
  match ledger.obstacle? request.source request.kind with
  | some existing => .error (.conflicting existing)
  | none =>
    match (ledger.parents request.source).find? (!nesting.nests request.stop ·.stop) with
    | some parent => .error (.outlives parent)
    | none =>
      let id : LoanId := ⟨ledger.nextId⟩
      .ok (id, ⟨ledger.loans ++ [{ request with id }], ledger.nextId + 1⟩)

def release (ledger : Ledger) (id : LoanId) : Option Loan × Ledger :=
  (ledger.get? id, { ledger with loans := ledger.loans.eraseP (·.id == id) })

/-- Takes all loans of a kind out and returns them, the latest first. -/
def releaseWhere (ledger : Ledger) (gone : Loan → Bool) : List Loan × Ledger :=
  let (out, kept) := (sweep gone ledger.loans.length ledger.loans []).get (isSome_sweep gone ledger.loans)
  (out, { ledger with loans := kept })

/-- Whether a loan's span is over before the operation `now`. Scopes do not run out by themselves. -/
def expired (now : Nat) (loan : Loan) : Bool :=
  match loan.region with
  | .span _ _ => loan.stop < now
  | .scope _ => false

/-- Releases the spans that are over before the operation `now`. -/
def expire (ledger : Ledger) (now : Nat) : List Loan × Ledger :=
  ledger.releaseWhere (expired now)

def releaseScope (ledger : Ledger) (id : ScopeId) : List Loan × Ledger :=
  ledger.releaseWhere (·.region == .scope id)

/-- The numbers of the loans held at `holder` or inside it. -/
def heldIds (ledger : Ledger) (holder : Place) : List LoanId :=
  (ledger.loans.filter (holder.isPrefixOf ·.holder)).map (·.id)

/-- Releases the loans held at `holder` or inside it. They are picked by their numbers, which are listed beforehand. -/
def releaseHeldBy (ledger : Ledger) (holder : Place) : List Loan × Ledger :=
  let held := ledger.heldIds holder
  ledger.releaseWhere (held.contains ·.id)

/-- The numbers of the loans on storage that `p` may name. -/
def lentIds (ledger : Ledger) (p : Place) : List LoanId :=
  (ledger.overlapping p).map (·.id)

/-- Releases the loans with the given numbers, one after the other. -/
def releaseEach (ledger : Ledger) (ids : List LoanId) : Ledger :=
  ids.foldl (fun ledger id => (ledger.release id).2) ledger

/-- Hands the loans held exactly at `source` to `target`, and counts them. -/
def transfer (ledger : Ledger) (source target : Place) : Nat × Ledger :=
  (ledger.loans.countP (·.holder == source),
    { ledger with loans := ledger.loans.map fun loan =>
        if loan.holder = source then { loan with holder := target } else loan })

/-! ## What the operations do to the list of loans -/

theorem mem_overlapping {ledger : Ledger} {p : Place} {loan : Loan} :
    loan ∈ ledger.overlapping p ↔ loan ∈ ledger.loans ∧ loan.source.overlaps p = true :=
  List.mem_filter

theorem mem_parents {ledger : Ledger} {p : Place} {loan : Loan} :
    loan ∈ ledger.parents p ↔ loan ∈ ledger.loans ∧ loan.holder.isPrefixOf p = true :=
  List.mem_filter

theorem releaseWhere_eq (ledger : Ledger) (gone : Loan → Bool) :
    ledger.releaseWhere gone =
      ((ledger.loans.filter gone).reverse, { ledger with loans := ledger.loans.filter (!gone ·) }) := by
  simp only [releaseWhere, sweep_length, Option.get_some]

end Ledger

end BorrowChecker
