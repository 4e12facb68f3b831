import KeyScan.Text.Blank
import KeyScan.Text.Pieces

/-!
The types that table metadata declares for columns.
-/

namespace KeyScan

/-- The declared type of a column. A timestamp counts milliseconds; a decimal and an array of texts
are kept as text. -/
inductive ColumnType where
  | varchar
  | integer
  | bigint
  | double
  | boolean
  | timestamp
  | decimal
  | varcharArray
  deriving DecidableEq, Repr, Inhabited

namespace ColumnType

/-- The name shown in messages. -/
def name : ColumnType → String
  | varchar => "varchar"
  | integer => "integer"
  | bigint => "bigint"
  | double => "double"
  | boolean => "boolean"
  | timestamp => "timestamp"
  | decimal => "decimal"
  | varcharArray => "array<varchar>"

/-- The type that a metadata file names, in any ASCII case and with blanks around it. Names that
are not known, or missing, mean text. -/
def ofDeclaredName : Option String → ColumnType
  | none => varchar
  | some declared =>
      match Text.lowercase (Text.trim declared) with
      | "int" => integer
      | "bigint" => bigint
      | "double" => double
      | "boolean" => boolean
      | "array<string>" => varcharArray
      | "timestamp" => timestamp
      | "datetime" => timestamp
      | "number" => decimal
      | _ => varchar

end ColumnType

end KeyScan
