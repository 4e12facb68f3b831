import KeyScan.Condition
import KeyScan.Json.Tagged

/-!
JSON forms of column types, values and conditions.
-/

namespace KeyScan

namespace ColumnType

/-- The name in JSON. -/
def tag : ColumnType → String
  | varcharArray => "varchar_array"
  | type => type.name

def ofTag? : String → Option ColumnType
  | "varchar" => some varchar
  | "integer" => some integer
  | "bigint" => some bigint
  | "double" => some double
  | "boolean" => some boolean
  | "timestamp" => some timestamp
  | "decimal" => some decimal
  | "varchar_array" => some varcharArray
  | _ => none

def toJson (type : ColumnType) : Json := .text type.tag

def ofJson? : Json → Option ColumnType := Json.choice? ofTag?

end ColumnType

namespace Operator

def tag : Operator → String
  | eq => "EQ"
  | gt => "GT"
  | ge => "GE"
  | lt => "LT"
  | le => "LE"

def ofTag? : String → Option Operator
  | "EQ" => some eq
  | "GT" => some gt
  | "GE" => some ge
  | "LT" => some lt
  | "LE" => some le
  | _ => none

def toJson (operator : Operator) : Json := .text operator.tag

def ofJson? : Json → Option Operator := Json.choice? ofTag?

end Operator

namespace Scalar

/-- The type of a value and its plain form. -/
def parts : Scalar → String × Json
  | varchar value => ("varchar", .text value)
  | integer value => ("integer", .int value.toInt)
  | bigint value => ("bigint", .int value.toInt)
  | double value => ("double", .real value)
  | boolean value => ("boolean", .bool value)
  | timestamp value => ("timestamp", .int value.toInt)

def toJson (value : Scalar) : Json :=
  .object [("type", .text value.parts.1), ("value", value.parts.2)]

/-- The reader of the plain form by the name of the type. -/
def ofContent? (content : Json) : String → Option Scalar
  | "varchar" => content.text?.map varchar
  | "integer" => (content.int?.bind int32?).map integer
  | "bigint" => (content.int?.bind int64?).map bigint
  | "double" => content.double?.map double
  | "boolean" => content.bool?.map boolean
  | "timestamp" => (content.int?.bind int64?).map timestamp
  | _ => none

/-- The names of the types that values have. -/
def kinds : List String :=
  ["varchar", "integer", "bigint", "double", "boolean", "timestamp"]

def ofJson? (value : Json) : Option Scalar := do
  let tagged ← value.tagged? false kinds "type" "value"
  ofContent? (← tagged.content) tagged.kind

end Scalar

namespace Condition

def toJson (c : Condition) : Json :=
  .object [("column", .text c.column), ("operator", c.operator.toJson),
    ("value", c.value.toJson), ("value_type", c.valueType.toJson)]

def ofJson? (value : Json) : Option Condition := do
  let record ← value.record? ["column", "operator", "value", "value_type"]
  return {
    column := ← record.required "column" Json.text?
    operator := ← record.required "operator" Operator.ofJson?
    value := ← record.required "value" Scalar.ofJson?
    valueType := ← record.required "value_type" ColumnType.ofJson? }

end Condition

end KeyScan
