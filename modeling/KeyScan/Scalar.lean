import KeyScan.Double.Reading
import KeyScan.Double.Shortest
import KeyScan.Error
import KeyScan.Key.Basic

/-!
Typed values of conditions: their text in row keys, their bytes in cells, and their conversion to
the type of a column.
-/

namespace KeyScan

/-- A value that a condition compares with. -/
inductive Scalar where
  | varchar (value : String)
  | integer (value : Int32)
  | bigint (value : Int64)
  | double (value : Double)
  | boolean (value : Bool)
  | timestamp (value : Int64)
  deriving DecidableEq, Repr

namespace Scalar

/-- The value as text, which is also how it stands in a row key. -/
def text : Scalar → String
  | varchar value => value
  | integer value => Text.ofInteger value.toInt
  | bigint value => Text.ofInteger value.toInt
  | double value => value.text
  | boolean true => "true"
  | boolean false => "false"
  | timestamp value => Text.ofInteger value.toInt

/-- The row-key bytes of the text. -/
def key (value : Scalar) : Key :=
  Key.ofText value.text

/-- The low `count` bytes of a number, the highest first. -/
def bigEndian : Nat → Nat → List UInt8
  | 0, _ => []
  | count + 1, n => UInt8.ofNat (n / Nat.pow 256 count) :: bigEndian count n

/-- The value as a cell holds it: text in UTF-8, numbers in two's complement or IEEE bits with the
highest byte first. -/
def toBytes : Scalar → List UInt8
  | varchar value => Key.ofText value
  | integer value => bigEndian 4 value.toUInt32.toNat
  | bigint value => bigEndian 8 value.toUInt64.toNat
  | double value => bigEndian 8 value.bits.toNat
  | boolean value => [if value then 1 else 0]
  | timestamp value => bigEndian 8 value.toUInt64.toNat

/-- Equality of values of one type. Doubles are compared as numbers. -/
def same : Scalar → Scalar → Bool
  | double x, double y => x.numEq y
  | x, y => x = y

/-! ### Conversion -/

def int32? (n : Int) : Option Int32 :=
  if Int32.minValue.toInt ≤ n ∧ n ≤ Int32.maxValue.toInt then some (Int32.ofInt n) else none

def int64? (n : Int) : Option Int64 :=
  if Int64.minValue.toInt ≤ n ∧ n ≤ Int64.maxValue.toInt then some (Int64.ofInt n) else none

/-- The whole number that a text holds between blanks. -/
def wholeNumber? (value : String) : Option Int :=
  Text.integer? (Text.trimChars value.toList)

/-- The value in the type of a column, where the two are related: texts are read as numbers and
integers change width. Any other value stays as it is. -/
def convert? (target : ColumnType) : Scalar → Option Scalar
  | varchar value =>
      match target with
      | .integer => ((wholeNumber? value).bind int32?).map integer
      | .bigint => ((wholeNumber? value).bind int64?).map bigint
      | .double => (Double.ofChars? (Text.trimChars value.toList)).map double
      | _ => some (varchar value)
  | bigint value =>
      match target with
      | .integer => (int32? value.toInt).map integer
      | .double => some (double (Double.ofInt value.toInt))
      | _ => some (bigint value)
  | integer value =>
      match target with
      | .bigint => some (bigint value.toInt64)
      | .double => some (double (Double.ofInt value.toInt))
      | _ => some (integer value)
  | value => some value

/-- `convert?` for a value that stands on `column`. -/
def coerce (column : String) (target : ColumnType) (value : Scalar) : Except Error Scalar :=
  match value.convert? target with
  | some converted => .ok converted
  | none => .error (.coercion column value.text target)

end Scalar

end KeyScan
