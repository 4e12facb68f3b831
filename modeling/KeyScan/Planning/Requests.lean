import KeyScan.Config.Basic
import KeyScan.Filter.Compile
import KeyScan.Planning.KeyBounds

/-!
The read request of a split: the cells of the projected columns, the keys to read, and a filter for
the conditions that the keys do not meet already.
-/

namespace KeyScan.Planning

/-- The cell of a projected column. -/
def projectedCell (info : TableMeta) (name : String) : Except Error CellAddress :=
  match info.family? name with
  | some family => .ok ⟨family, name⟩
  | none => .error (.notFound "column" (info.qualified ++ "." ++ name))

/-- No key at all. -/
def emptyRange : KeyRange := ⟨some [], some []⟩

/-- The keys that a split reads. A region is narrowed to the hull of the row-key conditions. -/
def readRange (split : Split) (info : TableMeta) : KeyRange :=
  match split.unit with
  | .keyRange range => range
  | .regionLocal _ region _ =>
      (region.keyRange.intersect (KeyBounds.ofConditions split.conditions info).keyRange).getD
        emptyRange
  | .batchGet _ => .unbounded

/-- The keys that a split reads meet its row-key conditions. -/
def isRowKeyEncoded (split : Split) (info : TableMeta) : Bool :=
  match split.unit with
  | .batchGet _ =>
      (conditionsOn split.rowKeyColumn split.conditions).all fun c => c.operator = .eq
  | _ => KeyBounds.isExact split.conditions info

/-- The request that reads a split for the projected columns. The row key is not fetched as a cell;
every other column must be known. -/
def buildRequest (split : Split) (projection : List String) (info : TableMeta)
    (scan : ScanConfig) : Except Error ScanRequest := do
  let columns ←
    (projection.filter fun name => name ≠ split.rowKeyColumn).mapM (projectedCell info)
  return {
    columns
    filter := ScanFilter.compile info split.conditions projection (isRowKeyEncoded split info)
    caching := scan.caching
    range := readRange split info }

end KeyScan.Planning
