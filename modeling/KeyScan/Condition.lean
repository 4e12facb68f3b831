import KeyScan.Scalar

/-!
Conditions on columns. In a list of conditions, those on one column are alternatives, and those on
different columns must all hold.
-/

namespace KeyScan

inductive Operator where
  | eq
  | gt
  | ge
  | lt
  | le
  deriving DecidableEq, Repr

namespace Operator

def isLowerBound : Operator → Bool
  | gt => true
  | ge => true
  | _ => false

def isUpperBound : Operator → Bool
  | lt => true
  | le => true
  | _ => false

def symbol : Operator → String
  | eq => "="
  | gt => ">"
  | ge => ">="
  | lt => "<"
  | le => "<="

end Operator

/-- A column compared with a value, and the declared type of the column. -/
structure Condition where
  column : String
  operator : Operator
  value : Scalar
  valueType : ColumnType
  deriving DecidableEq, Repr

namespace Condition

/-- An equality on a text column. -/
def equals (column : String) (value : Scalar) : Condition :=
  ⟨column, .eq, value, .varchar⟩

def isEqualityOn (c : Condition) (column : String) : Bool :=
  c.operator = .eq && c.column = column

/-- The condition with its value in the declared type. -/
def coerced (c : Condition) : Except Error Condition :=
  (c.value.coerce c.column c.valueType).map fun value => { c with value }

def text (c : Condition) : String :=
  c.column ++ " " ++ c.operator.symbol ++ " " ++ c.value.text

end Condition

/-- The conditions on one column, in their order. -/
def conditionsOn (column : String) (conditions : List Condition) : List Condition :=
  conditions.filter fun c => c.column = column

theorem mem_conditionsOn_iff {column : String} {conditions : List Condition} {c : Condition} :
    c ∈ conditionsOn column conditions ↔ c ∈ conditions ∧ c.column = column := by
  simp [conditionsOn]

end KeyScan
