import KeyScan.Json.Record
import KeyScan.Table.Meta

/-!
Metadata documents: the JSON that describes a table, and the metadata it comes to.
-/

namespace KeyScan

/-- A column as a document describes it. -/
structure DocumentColumn where
  family : String
  name : String
  type : Option String
  isRowKey : Bool

/-- A metadata document. The names may be left to where the document is kept. -/
structure TableDocument where
  schemaName : Option String
  tableName : Option String
  rowKeyColumn : String
  rowKeyFormat : String
  rowKeySeparator : Option String
  saltRanges : Option String
  columns : List DocumentColumn

namespace DocumentColumn

def ofJson? (value : Json) : Option DocumentColumn := do
  let record ← value.record? ["family", "columnName", "type", "isRowKey"]
  return {
    family := ← record.defaulted "family" "" Json.text?
    name := ← record.required "columnName" Json.text?
    type := ← record.defaulted "type" none (Json.optional? Json.text?)
    isRowKey := ← record.defaulted "isRowKey" false Json.bool? }

def toColumn (column : DocumentColumn) : Column :=
  ⟨column.family, column.name, .ofDeclaredName column.type, column.isRowKey⟩

end DocumentColumn

namespace TableDocument

def ofJson? (value : Json) : Option TableDocument := do
  let record ← value.record? ["schemaName", "tableName", "rowKeyColName", "rowKeyFormat",
    "rowKeySeparator", "rowKeyFirstCharRange", "columns"]
  let nullableText (field : String) := record.defaulted field none (Json.optional? Json.text?)
  return {
    schemaName := ← nullableText "schemaName"
    tableName := ← nullableText "tableName"
    rowKeyColumn := ← record.defaulted "rowKeyColName" "" Json.text?
    rowKeyFormat := ← record.defaulted "rowKeyFormat" "" Json.text?
    rowKeySeparator := ← nullableText "rowKeySeparator"
    saltRanges := ← nullableText "rowKeyFirstCharRange"
    columns := ← record.defaulted "columns" [] (Json.list? DocumentColumn.ofJson?) }

/-- The separator, where an empty one counts as none. -/
def separator (document : TableDocument) : String :=
  match document.rowKeySeparator with
  | some separator => if separator = "" then defaultSeparator else separator
  | none => defaultSeparator

/-- The salt alphabet; blank text means there is none. -/
def salt (document : TableDocument) (qualified : String) : Except Error (Option Salt) :=
  match document.saltRanges.map Text.trim with
  | none => .ok none
  | some "" => .ok none
  | some ranges =>
      match Salt.parse ranges with
      | .ok salt => .ok (some salt)
      | .error error =>
          .error (.invalidTableMeta qualified ("rowKeyFirstCharRange: " ++ error.message))

/-- The metadata of a document kept for a schema and a table, if it can be planned with. -/
def toMeta (document : TableDocument) (schema table : String) : Except Error TableMeta := do
  let schema := document.schemaName.getD schema
  let table := document.tableName.getD table
  let salt ← document.salt (qualifiedName schema table)
  let info : TableMeta := {
    schema, table, salt
    rowKeyColumn := document.rowKeyColumn
    rowKeyFormat := RowKeyFormat.parse document.rowKeyFormat document.separator
    columns := document.columns.map DocumentColumn.toColumn }
  info.validate
  return info

end TableDocument

end KeyScan
