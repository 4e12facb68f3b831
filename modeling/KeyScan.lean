import KeyScan.Config.Load
import KeyScan.Planning.Planner
import KeyScan.Planning.Requests
import KeyScan.Store.Cursor
import KeyScan.Table.Directory
import KeyScan.Wire.Config
import KeyScan.Wire.Request
import KeyScan.Wire.Strategy
import KeyScan.Wire.Table
import KeyScan.Proofs.Planning.Expansion
import KeyScan.Proofs.Planning.Prefixes
import KeyScan.Proofs.Reads.Batches
import KeyScan.Proofs.Reads.Ranges
import KeyScan.Proofs.Reads.Regions
import KeyScan.Proofs.Constraint.Texts
import KeyScan.Proofs.Planning.PrefixRanges
import KeyScan.Proofs.Planning.Inhabited
import KeyScan.Proofs.Planning.RowKeyDomain
import KeyScan.Proofs.Planning.Widening
import KeyScan.Proofs.Planning.Alternatives
import KeyScan.Proofs.Key.Decimal
import KeyScan.Proofs.Reads.Mixed
import KeyScan.Proofs.Reads.NumericKeys
import KeyScan.Proofs.Filter.Meaning
import KeyScan.Proofs.Wire.Table
import KeyScan.Proofs.Store.Invariants
import KeyScan.Proofs.Planning.Attempts
import KeyScan.Proofs.Store.Execution
import KeyScan.Proofs.Planning.Limits
import KeyScan.Proofs.Planning.Words
import KeyScan.Proofs.Planning.PlansInWords
import KeyScan.Proofs.Wire.Split
import KeyScan.Proofs.Wire.Request
import KeyScan.Proofs.Wire.Shipping
import KeyScan.Proofs.Planning.Reordering
import KeyScan.Proofs.Salt.Clipping
import KeyScan.Proofs.Salt.Partition
import KeyScan.Proofs.Store.LiveRegions
import KeyScan.Proofs.Salt.Declarations
import KeyScan.Proofs.Table.Documents
import KeyScan.Proofs.Text.Utf8
import KeyScan.Proofs.Table.Loading
import KeyScan.Proofs.Key.Meet
import KeyScan.Proofs.Planning.Hints
import KeyScan.Proofs.Store.Draining
import KeyScan.Proofs.Scalar.Conversion
