import KeyScan.Salt.Basic
import KeyScan.Table.Meta
import KeyScan.Wire.Condition

/-!
JSON forms of salt alphabets and table metadata. A salt is a text, as it is read elsewhere.
-/

namespace KeyScan

namespace CharRange

def toJson (range : CharRange) : Json :=
  .object [("start", .int range.first.toNat), ("end", .int range.last.toNat)]

/-- The bounds are taken as they are. -/
def ofJson? (value : Json) : Option CharRange := do
  let record ← value.record? ["start", "end"]
  return {
    first := ← record.required "start" Json.uint8?
    last := ← record.required "end" Json.uint8? }

end CharRange

namespace Salt

def toJson (salt : Salt) : Json := .text salt.text

def ofJson? (value : Json) : Option Salt := do
  (parse (← value.text?)).toOption

end Salt

namespace RowKeyFormat

def toJson (format : RowKeyFormat) : Json :=
  .object [("components", .texts format.components), ("separator", .text format.separator)]

def ofJson? (value : Json) : Option RowKeyFormat := do
  let record ← value.record? ["components", "separator"]
  return {
    components := ← record.required "components" (Json.list? Json.text?)
    separator := ← record.required "separator" Json.text? }

end RowKeyFormat

namespace Column

def toJson (column : Column) : Json :=
  .object [("family", .text column.family), ("name", .text column.name),
    ("column_type", column.type.toJson), ("is_row_key", .bool column.isRowKey)]

def ofJson? (value : Json) : Option Column := do
  let record ← value.record? ["family", "name", "column_type", "is_row_key"]
  return {
    family := ← record.required "family" Json.text?
    name := ← record.required "name" Json.text?
    type := ← record.required "column_type" ColumnType.ofJson?
    isRowKey := ← record.required "is_row_key" Json.bool? }

end Column

namespace TableMeta

def toJson (info : TableMeta) : Json :=
  .object [("schema", .text info.schema), ("table", .text info.table),
    ("row_key_column", .text info.rowKeyColumn), ("row_key_format", info.rowKeyFormat.toJson),
    ("salt", .optional Salt.toJson info.salt),
    ("columns", .array (info.columns.map Column.toJson))]

/-- Reads metadata without asking whether it can be planned with. -/
def ofJson? (value : Json) : Option TableMeta := do
  let record ← value.record? ["schema", "table", "row_key_column", "row_key_format", "salt",
    "columns"]
  return {
    schema := ← record.required "schema" Json.text?
    table := ← record.required "table" Json.text?
    rowKeyColumn := ← record.required "row_key_column" Json.text?
    rowKeyFormat := ← record.defaulted "row_key_format" {} RowKeyFormat.ofJson?
    salt := ← record.defaulted "salt" none (Json.optional? Salt.ofJson?)
    columns := ← record.defaulted "columns" [] (Json.list? Column.ofJson?) }

end TableMeta

end KeyScan
