import KeyScan.Split
import KeyScan.Store.Basic

/-!
Reads of the store. A filter sees the whole stored row; what is left of the row is selected after
it.
-/

namespace KeyScan

/-- What a request gets of a stored row: nothing if the filter refuses it. -/
def ScanRequest.read (request : ScanRequest) (row : Row) : Option Row :=
  match request.filter with
  | none => some (row.project request.columns)
  | some filter =>
      if filter.accepts row then
        some (if filter.isKeyOnly then row.firstCellOnly else row.project request.columns)
      else none

namespace Store

/-- The rows of a range in key order. -/
def scanRows (rows : OrderedMap Key Row) (range : KeyRange) (request : ScanRequest) : List Row :=
  (rows.values.filter fun row => row.key ∈ range).filterMap request.read

/-- Scans the range of the request. -/
def scan (store : Store) (table : String) (request : ScanRequest) : Except Error (List Row) :=
  match store.tables.find? table with
  | none => .error (.notFound "table" table)
  | some stored => .ok (scanRows stored.rows request.range request)

/-- Looks up keys in the order given; a key given twice is answered twice. -/
def multiGet (store : Store) (table : String) (keys : List Key) (request : ScanRequest) :
    Except Error (List Row) :=
  match store.tables.find? table with
  | none => .error (.notFound "table" table)
  | some stored => .ok ((keys.filterMap stored.rows.find?).filterMap request.read)

/-- Scans one region of a snapshot, as far as it lies in the range of the request. -/
def scanRegion (store : Store) (snapshot : String) (region : Region) (request : ScanRequest) :
    Except Error (List Row) :=
  match store.snapshots.find? snapshot with
  | none => .error (.notFound "snapshot" snapshot)
  | some held =>
      match region.keyRange.intersect request.range with
      | none => .ok []
      | some range => .ok (scanRows held.rows range request)

/-- Reads a split as its unit says. -/
def readSplit (store : Store) (split : Split) (request : ScanRequest) : Except Error (List Row) :=
  match split.unit with
  | .batchGet keys => store.multiGet split.qualified keys request
  | .keyRange _ => store.scan split.qualified request
  | .regionLocal _ region snapshot => store.scanRegion snapshot region request

end Store

end KeyScan
