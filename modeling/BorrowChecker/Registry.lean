import BorrowChecker.Loan.Splits
import BorrowChecker.Place.Table
import BorrowChecker.Variable.Store

/-!
# The registry

Everything a session knows about storage: the variables, the loans, the splits, and the table that numbers the
places these three speak of. A request numbers the places it is about to keep, even when it is then refused.
-/

namespace BorrowChecker

structure Registry where
  places : PlaceTable := {}
  store : Store := {}
  ledger : Ledger := {}
  splits : Splits := {}
deriving DecidableEq, Repr, Inhabited

namespace Registry

/-- Gives a place its number. -/
def enter (r : Registry) (p : Place) : Registry := { r with places := r.places.insert p }

/-! ## Variables -/

def declare (r : Registry) (p : Place) (request : DeclareRequest) : Except StoreError Unit × Registry :=
  let r := r.enter p
  match r.store.declare p request with
  | .error e => (.error e, r)
  | .ok store => (.ok (), { r with store })

def registerFacts (r : Registry) (p : Place) (facts : TypeFacts) : Except StoreError Unit × Registry :=
  match r.store.registerFacts p facts with
  | .error e => (.error e, r)
  | .ok store => (.ok (), { r.enter p with store })

/-- Marks `p` as moved out. A bare variable is not numbered by this. -/
def retire (r : Registry) (p : Place) : Registry :=
  { (if p.isVar then r else r.enter p) with store := r.store.retire p }

def assignHolder (r : Registry) (x : Symbol) (kind : BorrowKind) : Except StoreError Unit × Registry :=
  match r.store.assignHolder x kind with
  | .error e => (.error e, r)
  | .ok store => (.ok (), { r with store })

def permissions (r : Registry) (p : Place) : Except StoreError PermSet :=
  r.store.permissions r.ledger p

/-! ## Loans -/

def borrow (r : Registry) (request : LoanRequest) (nesting : Nesting) : Except LoanError LoanId × Registry :=
  let r := (r.enter request.source).enter request.holder
  match r.ledger.borrow request nesting with
  | .error e => (.error e, r)
  | .ok (id, ledger) => (.ok id, { r with ledger })

def release (r : Registry) (id : LoanId) : Registry := { r with ledger := (r.ledger.release id).2 }

def expire (r : Registry) (now : Nat) : Registry := { r with ledger := (r.ledger.expire now).2 }

def releaseScope (r : Registry) (id : ScopeId) : Registry := { r with ledger := (r.ledger.releaseScope id).2 }

def releaseHeldBy (r : Registry) (holder : Place) : Registry :=
  { r with ledger := (r.ledger.releaseHeldBy holder).2 }

def releaseEach (r : Registry) (ids : List LoanId) : Registry := { r with ledger := r.ledger.releaseEach ids }

def transfer (r : Registry) (source target : Place) : Nat × Registry :=
  let r := (r.enter source).enter target
  let (count, ledger) := r.ledger.transfer source target
  (count, { r with ledger })

/-! ## Values -/

/-- Moves a value out: the loans held inside it end, and its place is vacant. -/
def withdraw (r : Registry) (p : Place) : Registry := (r.releaseHeldBy p).retire p

/-- Moves the value of `source` to `target`. If the value is a reference, its loans go with it. -/
def relocate (r : Registry) (source target : Place) (isReference : Bool) : Registry :=
  (if isReference then (r.transfer source target).2 else r).withdraw source

/-! ## Splits -/

/-- Records that a scope cuts an array in two, and gives the halves. -/
def split (r : Registry) (array : Place) (boundary : Nat) (scope : ScopeId) : (Place × Place) × Registry :=
  let (left, right) := array.halves boundary
  let r := ((r.enter array).enter left).enter right
  ((left, right), { r with splits := r.splits.insert ⟨array, boundary, scope⟩ })

def discardSplits (r : Registry) (scope : ScopeId) : Registry :=
  { r with splits := r.splits.discard scope }

end Registry

end BorrowChecker
