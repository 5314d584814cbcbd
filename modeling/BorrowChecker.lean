import BorrowChecker.Config.Document
import BorrowChecker.Report
import BorrowChecker.Session.Step
import BorrowChecker.Wire.Verdict
import BorrowChecker.Proofs.Ledger
import BorrowChecker.Proofs.Rules
import BorrowChecker.Proofs.Change
import BorrowChecker.Proofs.Reachable
import BorrowChecker.Proofs.Soundness
import BorrowChecker.Proofs.Retirement
import BorrowChecker.Proofs.Atomicity
import BorrowChecker.Proofs.Location
import BorrowChecker.Proofs.Turnover
import BorrowChecker.Proofs.Grant
import BorrowChecker.Proofs.Rehoming
import BorrowChecker.Proofs.Schedule
import BorrowChecker.Proofs.Reborrow
import BorrowChecker.Proofs.FailFast
import BorrowChecker.Proofs.Release
import BorrowChecker.Proofs.BulkRelease
import BorrowChecker.Proofs.Revision
import BorrowChecker.Proofs.Scoping
import BorrowChecker.Proofs.Lifecycle
import BorrowChecker.Proofs.Chunking
import BorrowChecker.Proofs.Nesting
import BorrowChecker.Proofs.Foresight
import BorrowChecker.Proofs.Equivariance
import BorrowChecker.Proofs.Overwrite
import BorrowChecker.Proofs.ScopeExit
import BorrowChecker.Proofs.Capacity
import BorrowChecker.Proofs.References
import BorrowChecker.Proofs.Numbering
import BorrowChecker.Proofs.Codec
import BorrowChecker.Proofs.WireForm
import BorrowChecker.Proofs.Faults
import BorrowChecker.Proofs.Access
import BorrowChecker.Proofs.Blame
import BorrowChecker.Proofs.Destination
import BorrowChecker.Proofs.Windows
import BorrowChecker.Proofs.Parts
import BorrowChecker.Proofs.Locality
import BorrowChecker.Proofs.History
import BorrowChecker.Proofs.Restoration
import BorrowChecker.Proofs.Splitting
import BorrowChecker.Proofs.Registration
import BorrowChecker.Proofs.Rendering
