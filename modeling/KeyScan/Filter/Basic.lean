import KeyScan.Condition
import KeyScan.Row

/-!
Filters that a store applies to rows: comparisons of cells and keys as bytes, joined by "any" and
"all".
-/

namespace KeyScan

/-- How the bytes in a row have to stand to the bytes of a filter. -/
inductive Comparison where
  | equal
  | greater
  | greaterOrEqual
  | less
  | lessOrEqual
  deriving DecidableEq, Repr

namespace Comparison

/-- Byte strings in lexicographic order. -/
def holds (comparison : Comparison) (stored operand : List UInt8) : Bool :=
  match comparison with
  | equal => stored = operand
  | greater => operand < stored
  | greaterOrEqual => operand ≤ stored
  | less => stored < operand
  | lessOrEqual => stored ≤ operand

def ofOperator : Operator → Comparison
  | .eq => equal
  | .gt => greater
  | .ge => greaterOrEqual
  | .lt => less
  | .le => lessOrEqual

end Comparison

/-- Compares one cell. A row without the cell passes unless `filterIfMissing` is set. -/
structure CellFilter where
  family : String
  qualifier : String
  comparison : Comparison
  value : List UInt8
  filterIfMissing : Bool := true
  deriving DecidableEq, Repr

def CellFilter.accepts (filter : CellFilter) (row : Row) : Bool :=
  match row.cell? filter.family filter.qualifier with
  | some stored => filter.comparison.holds stored filter.value
  | none => !filter.filterIfMissing

/-- Compares the row key. -/
structure KeyFilter where
  comparison : Comparison
  value : Key
  deriving DecidableEq, Repr

def KeyFilter.accepts (filter : KeyFilter) (row : Row) : Bool :=
  filter.comparison.holds row.key filter.value

/-- A filter on rows. `firstKeyOnly` passes every row and asks for its first cell alone. -/
inductive ScanFilter where
  | firstKeyOnly
  | column (filter : CellFilter)
  | rowKey (filter : KeyFilter)
  | anyOf (children : List ScanFilter)
  | allOf (children : List ScanFilter)
  deriving Repr

namespace ScanFilter

mutual

def accepts (row : Row) : ScanFilter → Bool
  | firstKeyOnly => true
  | column filter => filter.accepts row
  | rowKey filter => filter.accepts row
  | anyOf children => anyAccepts row children
  | allOf children => allAccept row children

def anyAccepts (row : Row) : List ScanFilter → Bool
  | [] => false
  | child :: rest => child.accepts row || anyAccepts row rest

def allAccept (row : Row) : List ScanFilter → Bool
  | [] => true
  | child :: rest => child.accepts row && allAccept row rest

end

def isFirstKeyOnly : ScanFilter → Bool
  | firstKeyOnly => true
  | _ => false

/-- Asks for first cells alone, by itself or as one of the filters that all have to pass. -/
def isKeyOnly : ScanFilter → Bool
  | firstKeyOnly => true
  | allOf children => children.any isFirstKeyOnly
  | _ => false

mutual

/-- The number of filters that hold no others. -/
def leafCount : ScanFilter → Nat
  | firstKeyOnly => 1
  | column _ => 1
  | rowKey _ => 1
  | anyOf children => leafCounts children
  | allOf children => leafCounts children

def leafCounts : List ScanFilter → Nat
  | [] => 0
  | child :: rest => child.leafCount + leafCounts rest

end

theorem anyAccepts_eq_any (row : Row) (children : List ScanFilter) :
    anyAccepts row children = children.any (accepts row) := by
  induction children with
  | nil => rfl
  | cons child rest ih => simp [anyAccepts, ih]

theorem allAccept_eq_all (row : Row) (children : List ScanFilter) :
    allAccept row children = children.all (accepts row) := by
  induction children with
  | nil => rfl
  | cons child rest ih => simp [allAccept, ih]

end ScanFilter

end KeyScan
