import KeyScan.Json.Parser
import KeyScan.Json.Printer
import KeyScan.Request
import KeyScan.Wire.Filter
import KeyScan.Wire.Split

/-!
JSON forms of read requests and rows. Cells have no JSON form, so only a row without cells can be
written or read.
-/

namespace KeyScan

namespace CellAddress

def toJson (address : CellAddress) : Json :=
  .object [("family", .text address.family), ("qualifier", .text address.qualifier)]

def ofJson? (value : Json) : Option CellAddress := do
  let record ← value.record? ["family", "qualifier"]
  return {
    family := ← record.required "family" Json.text?
    qualifier := ← record.required "qualifier" Json.text? }

end CellAddress

namespace ScanRequest

def toJson (request : ScanRequest) : Json :=
  .object [("columns", .array (request.columns.map CellAddress.toJson)),
    ("filter", .optional ScanFilter.toJson request.filter),
    ("caching", .int request.caching.toNat), ("range", request.range.toJson)]

def ofJson? (value : Json) : Option ScanRequest := do
  let record ← value.record? ["columns", "filter", "caching", "range"]
  return {
    columns := ← record.required "columns" (Json.list? CellAddress.ofJson?)
    filter := ← record.nullable "filter" ScanFilter.ofJson?
    caching := ← record.required "caching" Json.uint32?
    range := ← record.required "range" KeyRange.ofJson? }

/-- The nesting of the filter inside a request. -/
def nesting : Json → Nat
  | .object members =>
      (((members.find? fun m => m.1 = "filter").map fun m => ScanFilter.nesting m.2).getD 0) + 1
  | .array (_ :: filter :: _) => ScanFilter.nesting filter + 1
  | _ => 1

end ScanRequest

/-- Reads a filter from JSON text. -/
def ScanFilter.ofText? (source : String) : Option ScanFilter := do
  let value ← Json.parse? source
  if ScanFilter.nesting value ≤ Json.nestingLimit then ScanFilter.ofJson? value else none

/-- Reads a request from JSON text. -/
def ScanRequest.ofText? (source : String) : Option ScanRequest := do
  let value ← Json.parse? source
  if ScanRequest.nesting value ≤ Json.nestingLimit then ScanRequest.ofJson? value else none

namespace Row

/-- A row without cells as JSON text. -/
def encode (row : Row) : Except Error String :=
  if row.cells.entries = [] then
    .ok (Json.object [("key", .bytes row.key), ("cells", .object [])]).render
  else .error (.deserialization "key must be a string")

def ofJson? (value : Json) : Option Row := do
  let record ← value.record? ["key", "cells"]
  let key ← record.required "key" Json.bytes?
  match ← record.find? "cells" with
  | .object [] => return { key }
  | _ => none

end Row

end KeyScan
