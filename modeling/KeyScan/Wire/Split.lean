import KeyScan.Json.Parser
import KeyScan.Split
import KeyScan.Wire.Condition

/-!
JSON forms of key ranges, regions and splits, as they are sent to workers.
-/

namespace KeyScan

namespace KeyRange

def toJson (range : KeyRange) : Json :=
  .object [("start", .optional Json.bytes range.start), ("end", .optional Json.bytes range.stop)]

def ofJson? (value : Json) : Option KeyRange := do
  let record ← value.record? ["start", "end"]
  return {
    start := ← record.nullable "start" Json.bytes?
    stop := ← record.nullable "end" Json.bytes? }

end KeyRange

namespace HostAddress

def toJson (address : HostAddress) : Json :=
  .object [("host", .text address.host), ("port", .int address.port.toNat)]

def ofJson? (value : Json) : Option HostAddress := do
  let record ← value.record? ["host", "port"]
  return {
    host := ← record.required "host" Json.text?
    port := ← record.required "port" Json.uint16? }

end HostAddress

namespace Region

def toJson (region : Region) : Json :=
  .object [("region_id", .text region.id), ("start_key", .bytes region.startKey),
    ("end_key", .bytes region.stopKey), ("offline", .bool region.offline),
    ("split", .bool region.split), ("split_parent", .bool region.splitParent)]

def ofJson? (value : Json) : Option Region := do
  let record ← value.record? ["region_id", "start_key", "end_key", "offline", "split",
    "split_parent"]
  return {
    id := ← record.required "region_id" Json.text?
    startKey := ← record.required "start_key" Json.bytes?
    stopKey := ← record.required "end_key" Json.bytes?
    offline := ← record.defaulted "offline" false Json.bool?
    split := ← record.defaulted "split" false Json.bool?
    splitParent := ← record.defaulted "split_parent" false Json.bool? }

end Region

namespace ScanUnit

def toJson : ScanUnit → Json
  | batchGet keys =>
      .object [("kind", .text "batch_get"), ("keys", .array (keys.map Json.bytes))]
  | keyRange range => .object [("kind", .text "key_range"), ("range", range.toJson)]
  | regionLocal index region snapshot =>
      .object [("kind", .text "region_local"), ("region_index", .int index.toNat),
        ("region", region.toJson), ("snapshot_name", .text snapshot)]

/-- The reader of the fields by the kind. -/
def ofFields? (fields : Json) : String → Option ScanUnit
  | "batch_get" => do
      let record ← fields.record? ["keys"]
      return batchGet (← record.required "keys" (Json.list? Json.bytes?))
  | "key_range" => do
      let record ← fields.record? ["range"]
      return keyRange (← record.required "range" KeyRange.ofJson?)
  | "region_local" => do
      let record ← fields.record? ["region_index", "region", "snapshot_name"]
      return regionLocal (← record.required "region_index" Json.uint64?)
        (← record.required "region" Region.ofJson?) (← record.required "snapshot_name" Json.text?)
  | _ => none

def ofJson? (value : Json) : Option ScanUnit := do
  let (kind, fields) ← value.variant? "kind"
  ofFields? fields kind

/-- Reads a unit from JSON text. All of it is kept until its kind is known, so its nesting is
limited. -/
def ofText? (source : String) : Option ScanUnit := do
  let value ← Json.parse? source
  if value.depth ≤ Json.nestingLimit then ofJson? value else none

end ScanUnit

namespace Split

def toJson (split : Split) : Json :=
  .object [("schema", .text split.schema), ("table", .text split.table),
    ("row_key_column", .text split.rowKeyColumn),
    ("host_hints", .array (split.hostHints.map HostAddress.toJson)),
    ("conditions", .array (split.conditions.map Condition.toJson)), ("unit", split.unit.toJson)]

def ofJson? (value : Json) : Option Split := do
  let record ← value.record? ["schema", "table", "row_key_column", "host_hints", "conditions",
    "unit"]
  return {
    schema := ← record.required "schema" Json.text?
    table := ← record.required "table" Json.text?
    rowKeyColumn := ← record.required "row_key_column" Json.text?
    hostHints := ← record.defaulted "host_hints" [] (Json.list? HostAddress.ofJson?)
    conditions := ← record.required "conditions" (Json.list? Condition.ofJson?)
    unit := ← record.required "unit" ScanUnit.ofJson? }

/-- The nesting of the unit inside a split. -/
def nesting : Json → Nat
  | .object members =>
      (((members.find? fun m => m.1 = "unit").map fun m => m.2.depth).getD 0) + 1
  | .array items => ((items[5]?.map Json.depth).getD 0) + 1
  | _ => 0

/-- Reads a split from JSON text. -/
def ofText? (source : String) : Option Split := do
  let value ← Json.parse? source
  if nesting value ≤ Json.nestingLimit then ofJson? value else none

end Split

end KeyScan
