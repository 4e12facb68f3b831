import KeyScan.Salt.Basic

/-!
Table metadata: the columns of a table and how its row keys are put together.
-/

namespace KeyScan

/-- The schema of a table that names none. -/
def defaultSchema : String := "default"

/-- Stands between the components of a row key unless the metadata says otherwise. -/
def defaultSeparator : String := "-"

/-- `schema:table`, the name of a table in stores and allow-lists. -/
def qualifiedName (schema table : String) : String :=
  schema ++ ":" ++ table

/-- The columns whose texts make up a row key, in order, and what stands between them. -/
structure RowKeyFormat where
  components : List String := []
  separator : String := defaultSeparator
  deriving DecidableEq, Repr

/-- Component names separated by commas; blank ones are dropped. -/
def RowKeyFormat.parse (format separator : String) : RowKeyFormat :=
  ⟨((Text.pieces ',' format).map Text.trim).filter fun name => name ≠ "", separator⟩

/-- A column: the family its cells stand in, its name and declared type. -/
structure Column where
  family : String
  name : String
  type : ColumnType
  isRowKey : Bool
  deriving DecidableEq, Repr

namespace Column

def ofFamily (family name : String) (type : ColumnType) : Column :=
  ⟨family, name, type, false⟩

/-- The row key as a column: a text in no family. -/
def rowKey (name : String) : Column :=
  ⟨"", name, .varchar, true⟩

end Column

/-- What is known of a table's layout. -/
structure TableMeta where
  schema : String
  table : String
  rowKeyColumn : String
  rowKeyFormat : RowKeyFormat := {}
  salt : Option Salt := none
  columns : List Column := []
  deriving DecidableEq, Repr

namespace TableMeta

def qualified (info : TableMeta) : String :=
  qualifiedName info.schema info.table

/-- The first column of the name. -/
def column? (info : TableMeta) (name : String) : Option Column :=
  info.columns.find? fun column => column.name = name

def family? (info : TableMeta) (name : String) : Option String :=
  (info.column? name).map Column.family

/-- The declared type of the row key, text if it is not declared. -/
def rowKeyType (info : TableMeta) : ColumnType :=
  match info.column? info.rowKeyColumn with
  | some column => column.type
  | none => .varchar

/-- What is wrong with the columns flagged as row key, where columns are declared at all. -/
def rowKeyFlagFault? (info : TableMeta) : Option String :=
  match info.columns, info.columns.filter Column.isRowKey with
  | [], _ => none
  | _, [] => some "no column is flagged as the row key"
  | _, [only] =>
      if only.name = info.rowKeyColumn then none
      else
        some ("row key column `" ++ info.rowKeyColumn ++ "` does not match flagged column `" ++
          only.name ++ "`")
  | _, _ => some "more than one column is flagged as the row key"

/-- The row key holds a separator. -/
def needsSeparator (info : TableMeta) : Bool :=
  1 < info.rowKeyFormat.components.length || info.salt.isSome

/-- The first thing that keeps the metadata from being planned with. -/
def fault? (info : TableMeta) : Option String :=
  if Text.isAllBlank info.table then some "table name is empty"
  else if Text.isAllBlank info.rowKeyColumn then some "row key column is not specified"
  else
    match info.rowKeyFlagFault? with
    | some fault => some fault
    | none =>
        if info.needsSeparator && info.rowKeyFormat.separator = "" then
          some "row key separator must not be empty"
        else none

def validate (info : TableMeta) : Except Error Unit :=
  match info.fault? with
  | some fault => .error (.invalidTableMeta info.qualified fault)
  | none => .ok ()

end TableMeta

end KeyScan
