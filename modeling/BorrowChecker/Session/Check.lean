import BorrowChecker.Session.Basic

/-!
# The rules of access

Each rule looks at a session and either lets an operation pass or names the fault. None changes anything.
-/

namespace BorrowChecker

/-- The kind of violation that a refusal of the store is reported as. -/
def StoreError.violationKind : StoreError → ViolationKind
  | .unknown => .unknownPath
  | .duplicate => .duplicatePath
  | .moved => .useAfterMove
  | .notMutable => .missingWrite

/-- The kind of violation that a refusal of the ledger is reported as. -/
def LoanError.violationKind : LoanError → ViolationKind
  | .conflicting _ => .conflictingBorrow
  | .outlives _ => .loanOutlivesSource

/-- The fault that a refusal of the store at `p` is. -/
def StoreError.fault (e : StoreError) (p : Place) : Fault := .about e.violationKind p

/-- The fault that a refusal of the ledger to lend `source` is. -/
def LoanError.fault (e : LoanError) (source : Place) : Fault := .about e.violationKind source (some e.loan)

namespace Session

/-! ## Paths -/

/-- A place can be named if its variable is declared and every window on the way comes from a split in force. -/
def checkPath (s : Session) (p : Place) : Except Fault Unit :=
  if (s.store.find? p.root).isSome && p.windows.all s.splits.has then .ok ()
  else .error (.about .unknownPath p)

/-- A place is usable if it can be named and nothing of it has been moved out. -/
def checkLive (s : Session) (p : Place) : Except Fault Unit := do
  s.checkPath p
  match s.store.checkLive p with
  | .ok _ => .ok ()
  | .error e => .error (e.fault p)

def isLive (s : Session) (p : Place) : Bool := (s.checkLive p).isOk

def permissionsAt (s : Session) (p : Place) : Except Fault PermSet :=
  (s.registry.permissions p).mapError (·.fault p)

/-! ## Accesses -/

/-- An access passes if the place is usable and permits what is needed. Otherwise the first of read, write and own
that is missing is reported with the latest loan that suspends it; a read that a loan suspends is a conflict. -/
def checkAccess (s : Session) (p : Place) (needs : PermSet) : Except Fault Unit := do
  s.checkLive p
  let missing := (← s.permissionsAt p).missing needs
  if missing = ∅ then
    .ok ()
  else if .read ⊆ missing then
    match s.ledger.blocking? p .read with
    | some loan => .error (.about .conflictingBorrow p (some loan))
    | none => .error (.about .missingRead p)
  else if .write ⊆ missing then
    .error (.about .missingWrite p (s.ledger.blocking? p .write))
  else
    .error (.about .missingOwn p (s.ledger.blocking? p .own))

/-- A value can be moved out if it may be owned, or read if its type owns nothing, and no loan is left on it. -/
def checkMove (s : Session) (p : Place) : Except Fault Unit := do
  s.checkAccess p (if (s.factsOf p).owning then .own else .read)
  match (s.ledger.overlapping p).getLast? with
  | some loan => .error (.about .conflictingBorrow p (some loan))
  | none => .ok ()

/-- A copy reads a duplicable value and moves any other. The answer says whether it moves. -/
def checkCopy (s : Session) (p : Place) : Except Fault Bool := do
  if (s.factsOf p).duplicable then
    s.checkAccess p .read
    .ok false
  else
    s.checkMove p
    .ok true

/-- Dropping is for owning values that may be owned. A value that owns nothing is refused as such, in place or not. -/
def checkDrop (s : Session) (p : Place) : Except Fault Unit := do
  s.checkPath p
  if (s.factsOf p).owning then s.checkAccess p .own else .error (.about .invalidDrop p)

/-! ## Loans -/

/-- The last operation that a region covers. A span has to start with the operation that asks for it and must not
end earlier, and a scope has to be open. -/
def regionStop? (s : Session) : Region → Option Nat
  | .span start stop => if start = s.next ∧ s.next ≤ stop then some stop else none
  | .scope id => (s.scopes.find? (·.id == id)).map (·.stop)

/-- A place can be lent if the region covers the operation, the place is usable, no loan excludes the new one, and
the place permits what the reference will give. The answer is the last operation that the loan covers. -/
def checkBorrow (s : Session) (source : Place) (kind : BorrowKind) (region : Region) : Except Fault Nat :=
  match s.regionStop? region with
  | none => .error (.about .invalidRegion source)
  | some stop => do
    s.checkLive source
    match s.ledger.obstacle? source kind with
    | some loan => .error (.about .conflictingBorrow source (some loan))
    | none =>
      let missing := (← s.permissionsAt source).missing kind.requires
      if .read ⊆ missing then .error (.about .missingRead source)
      else if .write ⊆ missing then .error (.about .missingWrite source)
      else .ok stop

end Session

end BorrowChecker
