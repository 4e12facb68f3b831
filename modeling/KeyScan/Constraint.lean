import KeyScan.Condition
import KeyScan.OrderedMap

/-!
Constraints: the values that each column may take, and the conditions they come down to.
-/

namespace KeyScan

/-- One end of a range of values. -/
inductive Bound where
  | included (value : Scalar)
  | excluded (value : Scalar)
  | unbounded
  deriving DecidableEq, Repr

/-- The values between two ends. -/
structure ValueRange where
  low : Bound
  high : Bound
  deriving DecidableEq, Repr

namespace ValueRange

def single (value : Scalar) : ValueRange := ⟨.included value, .included value⟩

def between (low high : Scalar) : ValueRange := ⟨.included low, .included high⟩

def greaterThan (value : Scalar) : ValueRange := ⟨.excluded value, .unbounded⟩

def atLeast (value : Scalar) : ValueRange := ⟨.included value, .unbounded⟩

def lessThan (value : Scalar) : ValueRange := ⟨.unbounded, .excluded value⟩

def atMost (value : Scalar) : ValueRange := ⟨.unbounded, .included value⟩

def all : ValueRange := ⟨.unbounded, .unbounded⟩

/-- The one value of a range whose ends are both included and equal. -/
def singleValue? : ValueRange → Option Scalar
  | ⟨.included low, .included high⟩ => if low.same high then some low else none
  | _ => none

end ValueRange

/-- The values allowed in one column: one of them, or those of a list of ranges. -/
inductive DomainValues where
  | single (value : Scalar)
  | ranges (ranges : List ValueRange)
  deriving DecidableEq, Repr

/-- The allowed values of a column with its declared type. -/
structure Domain where
  columnType : ColumnType
  values : DomainValues
  deriving DecidableEq, Repr

/-- A domain for each constrained column. The whole may be unavailable, which constrains nothing. -/
inductive Constraint where
  | unavailable
  | columns (domains : OrderedMap String Domain)
  deriving DecidableEq, Repr

namespace Constraint

/-- Every row is admitted. -/
def all : Constraint := columns .empty

/-- Sets the domain of a column, in the place of an earlier one. -/
def withColumn (c : Constraint) (column : String) (domain : Domain) : Constraint :=
  match c with
  | unavailable => columns (OrderedMap.empty.insert column domain)
  | columns domains => columns (domains.insert column domain)

end Constraint

/-! ### From constraints to conditions -/

def Bound.lowConditions (column : String) (type : ColumnType) : Bound → List Condition
  | .included value => [⟨column, .ge, value, type⟩]
  | .excluded value => [⟨column, .gt, value, type⟩]
  | .unbounded => []

def Bound.highConditions (column : String) (type : ColumnType) : Bound → List Condition
  | .included value => [⟨column, .le, value, type⟩]
  | .excluded value => [⟨column, .lt, value, type⟩]
  | .unbounded => []

/-- An equality for a range of one value, else one condition for each end there is. -/
def ValueRange.conditions (column : String) (type : ColumnType) (range : ValueRange) :
    List Condition :=
  match range.singleValue? with
  | some value => [⟨column, .eq, value, type⟩]
  | none => range.low.lowConditions column type ++ range.high.highConditions column type

/-- The conditions of a column, range by range. -/
def Domain.conditions (column : String) (domain : Domain) : List Condition :=
  match domain.values with
  | .single value => [⟨column, .eq, value, domain.columnType⟩]
  | .ranges ranges => ranges.flatMap (ValueRange.conditions column domain.columnType)

/-- The conditions of all columns, in the order of the column names. -/
def Constraint.conditions : Constraint → List Condition
  | .unavailable => []
  | .columns domains => domains.entries.flatMap fun entry => entry.2.conditions entry.1

end KeyScan
