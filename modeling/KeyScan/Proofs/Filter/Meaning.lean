import KeyScan.Proofs.Filter.Superset
import KeyScan.Request

/-! # What a compiled filter means

With the row key left to the keys that are read, a compiled filter asks one thing of every column that
can be compared in the store: that the cell is there and one of the conditions on the column holds of
its bytes, in whatever order the conditions come. -/

namespace KeyScan

/-- The bytes of a cell stand to those of an operand as the operator says, in lexicographic order. -/
def Operator.relates : Operator → List UInt8 → List UInt8 → Prop
  | eq, stored, operand => stored = operand
  | gt, stored, operand => operand < stored
  | ge, stored, operand => operand ≤ stored
  | lt, stored, operand => stored < operand
  | le, stored, operand => stored ≤ operand

theorem Comparison.holds_ofOperator_iff (operator : Operator) (stored operand : List UInt8) :
    (Comparison.ofOperator operator).holds stored operand = true ↔
      operator.relates stored operand := by
  cases operator <;> simp [ofOperator, holds, Operator.relates]

namespace ScanFilter

variable {info : TableMeta} {conditions : List Condition} {row : Row}

/-- The conditions on a column are compared in the store: it is not the row key, there are some, its
family is known, and all their values are of its type. -/
structure PushedDown (info : TableMeta) (conditions : List Condition) (column family : String) :
    Prop where
  ne_rowKey : column ≠ info.rowKeyColumn
  ne_nil : conditionsOn column conditions ≠ []
  family_eq : info.family? column = some family
  converts : ∀ c ∈ conditionsOn column conditions, (c.value.convert? c.valueType).isSome = true

/-- The row has the cell of the column, and one of the conditions on the column holds of its bytes. -/
def MeetsOne (conditions : List Condition) (column family : String) (row : Row) : Prop :=
  ∃ stored, row.cell? family column = some stored ∧
    ∃ c ∈ conditionsOn column conditions, ∃ operand, c.value.convert? c.valueType = some operand ∧
      c.operator.relates stored operand.toBytes

theorem exists_admitsCell_iff {column family : String} :
    (∃ c ∈ conditionsOn column conditions, c.AdmitsCell family row) ↔
      MeetsOne conditions column family row := by
  constructor
  · rintro ⟨c, hc, stored, hcell, operand, hoperand, hholds⟩
    rw [(mem_conditionsOn_iff.mp hc).2] at hcell
    exact ⟨stored, hcell, c, hc, operand, hoperand,
      (Comparison.holds_ofOperator_iff _ _ _).mp hholds⟩
  · rintro ⟨stored, hcell, c, hc, operand, hoperand, hrelates⟩
    rw [← (mem_conditionsOn_iff.mp hc).2] at hcell
    exact ⟨c, hc, stored, hcell, operand, hoperand,
      (Comparison.holds_ofOperator_iff _ _ _).mpr hrelates⟩

theorem admitsColumns_iff :
    AdmitsColumns info conditions row ↔
      ∀ column family, PushedDown info conditions column family →
        MeetsOne conditions column family row := by
  constructor
  · intro hall column family hpushed
    have haccepts := hall column hpushed.ne_rowKey hpushed.ne_nil
    rw [all_accepts_columnGroup_iff hpushed.ne_nil] at haccepts
    exact exists_admitsCell_iff.mp (haccepts family hpushed.family_eq hpushed.converts)
  · intro hall column hcolumn hne
    rw [all_accepts_columnGroup_iff hne]
    intro family hfamily hconverts
    exact exists_admitsCell_iff.mpr (hall column family ⟨hcolumn, hne, hfamily, hconverts⟩)

/-- Conditions on one column are alternatives, and every column that is compared has to meet one of
its own. For the row key alone every row is accepted and cut down to its first cell. -/
theorem compile_accepts_iff_meetsOne (info : TableMeta) (conditions : List Condition) (row : Row)
    {projection : List String} (hprojection : projection ≠ [info.rowKeyColumn]) :
    ((compile info conditions projection true).all (accepts row) = true ↔
      ∀ column family, PushedDown info conditions column family →
        MeetsOne conditions column family row) ∧
    (compile info conditions [info.rowKeyColumn] true).all (accepts row) = true ∧
    ∀ request : ScanRequest,
      { request with filter := compile info conditions [info.rowKeyColumn] true }.isKeyOnly =
        true := by
  refine ⟨?_, ?_, ?_⟩
  · rw [all_accepts_compile_iff, ← admitsColumns_iff]
    simp [hprojection]
  · rw [all_accepts_compile_iff]
    simp
  · intro request
    simp [compile, ScanRequest.isKeyOnly, isKeyOnly]

/-- A number or a bound on it, a sky, a wind that is no number and a column that the table lacks. -/
def weather : List Condition :=
  [⟨"degrees", .eq, .varchar " -3 ", .integer⟩, ⟨"sky", .eq, .varchar "clear", .varchar⟩,
    ⟨"wind", .gt, .integer 20, .double⟩, ⟨"degrees", .ge, .integer 30, .integer⟩,
    ⟨"humidity", .lt, .integer 40, .integer⟩, ⟨"wind", .eq, .varchar "strong", .double⟩]

/-- Degrees and sky are compared, each by its own conditions, and the rest is not. -/
theorem compile_accepts_iff_meetsOne_weather :
    PushedDown stations weather "degrees" "r" ∧ ¬ PushedDown stations weather "wind" "r" ∧
      MeetsOne weather "degrees" "r" (report "bern" (-3) "clear") := by
  have hpushed : PushedDown stations weather "degrees" "r" :=
    ⟨by decide, by decide, rfl, by decide⟩
  have hwind : ¬ PushedDown stations weather "wind" "r" := by
    intro hpushed
    exact absurd (hpushed.converts ⟨"wind", .eq, .varchar "strong", .double⟩ (by decide))
      (by decide)
  obtain ⟨hmeets, _, _⟩ := compile_accepts_iff_meetsOne stations weather
    (report "bern" (-3) "clear") (show ["station", "sky"] ≠ ["station"] by decide)
  exact ⟨hpushed, hwind, hmeets.mp (by decide) "degrees" "r" hpushed⟩

end ScanFilter

end KeyScan
