import KeyScan.Filter.Basic
import KeyScan.Key.Range

/-!
Read requests: what a reader asks of the store for one split.
-/

namespace KeyScan

/-- Rows fetched at a time unless it is configured otherwise. -/
def defaultCaching : UInt32 := 10000

/-- A read of the rows in a range that pass a filter. No listed columns means every cell. -/
structure ScanRequest where
  columns : List CellAddress := []
  filter : Option ScanFilter := none
  caching : UInt32 := defaultCaching
  range : KeyRange := .unbounded
  deriving Repr

def ScanRequest.isKeyOnly (request : ScanRequest) : Bool :=
  request.filter.any ScanFilter.isKeyOnly

end KeyScan
