import KeyScan.Key.Basic
import KeyScan.OrderedMap

/-!
Rows: a key with cells, each addressed by column family and qualifier.
-/

namespace KeyScan

/-- The address of a cell in a row. -/
structure CellAddress where
  family : String
  qualifier : String
  deriving DecidableEq, Repr

namespace CellAddress

/-- By family, then by qualifier. -/
instance : LT CellAddress :=
  ⟨fun a b => a.family < b.family ∨ a.family = b.family ∧ a.qualifier < b.qualifier⟩

instance : DecidableLT CellAddress := fun a b =>
  inferInstanceAs
    (Decidable (a.family < b.family ∨ a.family = b.family ∧ a.qualifier < b.qualifier))

end CellAddress

/-- A stored row with the value of each of its cells. -/
structure Row where
  key : Key
  cells : OrderedMap CellAddress (List UInt8) := .empty
  deriving DecidableEq, Repr

namespace Row

def withCell (row : Row) (address : CellAddress) (value : List UInt8) : Row :=
  { row with cells := row.cells.insert address value }

def cell? (row : Row) (family qualifier : String) : Option (List UInt8) :=
  row.cells.find? ⟨family, qualifier⟩

/-- The row cut down to the cells listed; an empty list keeps all. -/
def project (row : Row) (columns : List CellAddress) : Row :=
  if columns = [] then row
  else { row with cells := ⟨row.cells.entries.filter fun entry => columns.contains entry.1⟩ }

/-- The row cut down to its first cell. -/
def firstCellOnly (row : Row) : Row :=
  { row with cells := ⟨row.cells.entries.take 1⟩ }

end Row

end KeyScan
