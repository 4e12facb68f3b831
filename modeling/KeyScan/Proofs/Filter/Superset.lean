import KeyScan.Proofs.Constraint.Values
import KeyScan.Proofs.Filter.Columns

/-! # Filters admit what constraints admit

The filter of a constraint refuses no row that meets the constraint, as long as the bytes of its cells
are ordered like the values in them. Bytes of whole numbers are not, unless the numbers are of one
sign. -/

namespace KeyScan

variable {constraint : Constraint} {info : TableMeta} {row : Row}

/-- The row key lies in its domain, and each other column that the table knows has a cell that holds
a value of its domain and is ordered like that value. A domain with a value that is not of the type of
its column asks for nothing. -/
structure Constraint.AdmitsRow (constraint : Constraint) (info : TableMeta) (row : Row) : Prop where
  rowKey : ∀ domain ∈ constraint.domain? info.rowKeyColumn, domain.AdmitsKey row.key
  cells : ∀ column, column ≠ info.rowKeyColumn → ∀ domain ∈ constraint.domain? column,
    ∀ family ∈ info.family? column, domain.Converts →
      ∃ value : Scalar, row.cell? family column = some value.toBytes ∧
        domain.AdmitsValue value ∧ domain.BytesAgree value

/-- The domain of the row key, if it has one, names texts. -/
def Constraint.RowKeyTexts (constraint : Constraint) (info : TableMeta) : Prop :=
  ∀ domain ∈ constraint.domain? info.rowKeyColumn, ∀ bound ∈ domain.bounds,
    ∃ text, bound = .varchar text

namespace ScanFilter

theorem admitsRowKey_of_domain (hordered : constraint.Ordered)
    (htexts : constraint.RowKeyTexts info)
    (hkey : ∀ domain ∈ constraint.domain? info.rowKeyColumn, domain.AdmitsKey row.key) :
    admitsRowKey info constraint.conditions row = true := by
  rw [admitsRowKey, Constraint.conditionsOn_conditions hordered]
  cases hdomain : constraint.domain? info.rowKeyColumn with
  | none => rfl
  | some domain =>
      have hascending := Constraint.ascending_of_domain? hordered hdomain
      have hadmits := hkey domain hdomain
      have hnamed := htexts domain hdomain
      obtain ⟨type, values⟩ := domain
      cases values with
      | single only =>
          have hequal : row.key = only.key := hadmits
          simp [Domain.conditions, rowKeyGroup_singleton, Condition.AdmitsKey,
            Comparison.ofOperator, Comparison.holds, hequal]
      | ranges ranges =>
          obtain ⟨range, hrange, hadmits⟩ := hadmits
          refine (rowKeyGroup_accepts_iff (hascending ranges rfl)
            (List.ne_nil_of_mem hrange)).mpr ⟨range, hrange, ?_⟩
          apply ValueRange.forall_admitsKey_of_texts hadmits
          intro bound hbound
          exact hnamed bound (List.mem_flatMap.mpr ⟨range, hrange, hbound⟩)

theorem admitsColumns_of_admitsRow (hordered : constraint.Ordered)
    (h : constraint.AdmitsRow info row) : AdmitsColumns info constraint.conditions row := by
  intro column hcolumn hne
  rw [all_accepts_columnGroup_iff hne]
  intro family hfamily hconverts
  rw [Constraint.conditionsOn_conditions hordered] at hne hconverts ⊢
  cases hdomain : constraint.domain? column with
  | none => simp [hdomain] at hne
  | some domain =>
      simp only [hdomain, Option.map_some, Option.getD_some] at hne hconverts ⊢
      obtain ⟨value, hcell, hvalue, hagree⟩ := h.cells column hcolumn domain hdomain family hfamily
        (Domain.converts_of_conditions hconverts)
      obtain ⟨c, hc, hadmits⟩ := Domain.exists_admitsBytes hvalue
        (Constraint.ascending_of_domain? hordered hdomain) hagree hne
      have hname := Constraint.column_of_mem_conditions hc
      exact ⟨c, hc, value.toBytes, by rw [hname, hcell]; rfl, hadmits⟩

/-- The filter of a constraint accepts every row that the constraint admits, for any projection and
whether or not the row key is left out. -/
theorem compile_accepts_of_admitsRow (hordered : constraint.Ordered)
    (htexts : constraint.RowKeyTexts info) (hrow : constraint.AdmitsRow info row)
    (projection : List String) (rowKeyEncoded : Bool) :
    ∀ filter ∈ compile info constraint.conditions projection rowKeyEncoded,
      filter.accepts row = true := by
  have hall := (all_accepts_compile_iff projection rowKeyEncoded).mpr
    ⟨fun _ => admitsRowKey_of_domain hordered htexts hrow.rowKey,
      fun _ => admitsColumns_of_admitsRow hordered hrow⟩
  intro filter hfilter
  rw [Option.mem_def] at hfilter
  simpa [hfilter] using hall

/-- Stations by name, with what they report. -/
def stations : TableMeta where
  schema := "weather"
  table := "stations"
  rowKeyColumn := "station"
  columns := [.rowKey "station", .ofFamily "r" "degrees" .integer, .ofFamily "r" "sky" .varchar,
    .ofFamily "r" "wind" .double]

def report (station : String) (degrees : Int32) (sky : String) : Row :=
  ((Row.mk (Key.ofText station) .empty).withCell ⟨"r", "degrees"⟩
    (Scalar.integer degrees).toBytes).withCell ⟨"r", "sky"⟩ (Scalar.varchar sky).toBytes

/-- Frost under a clear sky at some of the stations. The table knows no humidity, and the wind is
given in words. -/
def clearFrost : Constraint :=
  .columns ⟨[
    ("degrees", ⟨.integer, .ranges [.atMost (.varchar "-20"), .between (.varchar " -5 ")
      (.integer (-1))]⟩),
    ("humidity", ⟨.integer, .single (.integer 40)⟩),
    ("sky", ⟨.varchar, .single (.varchar "clear")⟩),
    ("station", ⟨.varchar, .ranges [.between (.varchar "a") (.varchar "m"),
      .atLeast (.varchar "x")]⟩),
    ("wind", ⟨.double, .ranges [.single (.varchar "light"), .single (.varchar "strong")]⟩)]⟩

theorem clearFrost_ordered : clearFrost.Ordered := by
  refine ⟨by unfold OrderedMap.Sorted; decide, ?_⟩
  simp [Domain.Ascending, ValueRange.Ascending, ValueRange.single, ValueRange.atLeast,
    ValueRange.between, ValueRange.atMost]

theorem clearFrost_rowKeyTexts : clearFrost.RowKeyTexts stations := by
  rintro domain ⟨⟩
  simp [Domain.bounds, ValueRange.bounds, ValueRange.between, ValueRange.atLeast, Bound.value?]

/-- Negative numbers are ordered among themselves as their bytes are. -/
theorem bytesAgree_frost {degrees : Int32} (h : degrees.toInt < 0) :
    (Scalar.integer (-3)).BytesAgree (.integer degrees) :=
  (@Scalar.bytesAgree_iff_of_whole .integer _ _ _ _ rfl rfl).mpr (iff_of_true (by decide) h)

theorem clearFrost_admitsRow : clearFrost.AdmitsRow stations (report "bern" (-3) "clear") where
  rowKey := by
    rintro domain ⟨⟩
    exact ⟨.between (.varchar "a") (.varchar "m"), by simp, by decide⟩
  cells := by
    intro column hcolumn domain hdomain family hfamily hconverts
    have hentry := OrderedMap.mem_of_find?_eq_some hdomain
    simp only [List.mem_cons, Prod.mk.injEq, List.not_mem_nil, or_false] at hentry
    rcases hentry with ⟨rfl, rfl⟩ | ⟨rfl, rfl⟩ | ⟨rfl, rfl⟩ | ⟨rfl, rfl⟩ | ⟨rfl, rfl⟩
    · obtain rfl : "r" = family := Option.some.inj hfamily
      refine ⟨.integer (-3), by decide, ⟨.between (.varchar " -5 ") (.integer (-1)), by simp,
        ⟨.integer (-5), by decide, by decide⟩, .integer (-1), rfl, by decide⟩, ?_⟩
      intro bound hbound converted hconverted
      simp only [Domain.bounds, List.flatMap_cons, List.flatMap_nil, ValueRange.bounds,
        ValueRange.atMost, ValueRange.between, Bound.value?, Option.toList_some,
        Option.toList_none, List.nil_append, List.cons_append, List.append_nil, List.mem_cons,
        List.not_mem_nil, or_false] at hbound
      rcases hbound with rfl | rfl | rfl
      · obtain rfl : .integer (-20) = converted := Option.some.inj hconverted
        exact bytesAgree_frost (by decide)
      · obtain rfl : .integer (-5) = converted := Option.some.inj hconverted
        exact bytesAgree_frost (by decide)
      · obtain rfl : .integer (-1) = converted := Option.some.inj hconverted
        exact bytesAgree_frost (by decide)
    · simp [stations, TableMeta.family?, TableMeta.column?, Column.rowKey, Column.ofFamily]
        at hfamily
    · obtain rfl : "r" = family := Option.some.inj hfamily
      refine ⟨.varchar "clear", by decide, ⟨.varchar "clear", rfl, by decide⟩, ?_⟩
      intro bound hbound converted hconverted
      obtain rfl := List.mem_singleton.mp hbound
      obtain rfl := Option.some.inj hconverted
      exact Scalar.bytesAgree_varchar _ _
    · exact absurd rfl hcolumn
    · have hlight := hconverts (.varchar "light") (by decide)
      exact absurd hlight (by decide)

theorem compile_accepts_clearFrost :
    ∃ filter, compile stations clearFrost.conditions ["station", "sky"] false = some filter ∧
      filter.accepts (report "bern" (-3) "clear") = true := by
  obtain ⟨filter, hfilter⟩ : ∃ filter, compile stations clearFrost.conditions ["station", "sky"]
      false = some filter := Option.isSome_iff_exists.mp (by decide)
  exact ⟨filter, hfilter, compile_accepts_of_admitsRow clearFrost_ordered clearFrost_rowKeyTexts
    clearFrost_admitsRow _ _ filter hfilter⟩

/-! ### Whole numbers -/

/-- A single condition on a column of known family compiles into one comparison. -/
theorem compile_singleton {c : Condition} {family : String} {value : Scalar}
    (hfamily : info.family? c.column = some family) (hname : c.column ≠ info.rowKeyColumn)
    (hvalue : c.value.convert? c.valueType = some value) {projection : List String}
    (hprojection : projection ≠ [info.rowKeyColumn]) (rowKeyEncoded : Bool) :
    compile info [c] projection rowKeyEncoded =
      some (allOf [column ⟨family, c.column, .ofOperator c.operator, value.toBytes, true⟩]) := by
  have hgroup : columnGroup info c.column [c] =
      some (column ⟨family, c.column, .ofOperator c.operator, value.toBytes, true⟩) := by
    simp [columnGroup, ofColumnCondition, hfamily, hvalue, any?]
  simp [compile, hname, hprojection, conditionsOn, rowKeyGroup, intervals, any?, byColumn,
    OrderedMap.insert, OrderedMap.insertEntry, OrderedMap.empty, OrderedMap.find?, hgroup]

/-- A comparison of whole numbers that holds is pushed down to the store, which keeps the row exactly
if the number in the cell and the bound are both negative or both not. -/
theorem compile_accepts_whole_iff {column : Column} {c : Condition} {value : Scalar} {m n : Int}
    (hcolumn : info.column? c.column = some column) (hname : c.column ≠ info.rowKeyColumn)
    (htype : c.valueType = column.type)
    (hbound : c.value.wholeIn? column.type = some n)
    (hvalue : value.wholeIn? column.type = some m)
    (hcell : row.cell? column.family c.column = some value.toBytes)
    (hadmits : c.operator.admits value c.value = true) {projection : List String}
    (hprojection : projection ≠ [info.rowKeyColumn]) (rowKeyEncoded : Bool) :
    ∃ filter, compile info [c] projection rowKeyEncoded = some filter ∧
      (filter.accepts row = true ↔ (m < 0 ↔ n < 0)) := by
  have hfamily : info.family? c.column = some column.family := by
    rw [TableMeta.family?, hcolumn, Option.map_some]
  have hconverted : c.value.convert? c.valueType = some c.value :=
    htype ▸ Scalar.convert?_of_whole hbound
  refine ⟨_, compile_singleton hfamily hname hconverted hprojection rowKeyEncoded, ?_⟩
  rw [← Scalar.holds_iff_of_whole hvalue hbound hadmits, accepts_allOf]
  simp [accepts, CellFilter.accepts, hcell]

theorem compile_accepts_whole_frost :
    Operator.gt.admits (.integer (-3)) (.integer (-20)) = true ∧
      ∃ filter, compile stations [⟨"degrees", .gt, .integer (-20), .integer⟩]
          ["station", "degrees"] true = some filter ∧
        filter.accepts (report "bern" (-3) "clear") = true := by
  have hadmits : Operator.gt.admits (.integer (-3)) (.integer (-20)) = true := by decide
  obtain ⟨filter, hfilter, hiff⟩ :=
    @compile_accepts_whole_iff stations (report "bern" (-3) "clear") (.ofFamily "r" "degrees" .integer)
      ⟨"degrees", .gt, .integer (-20), .integer⟩ (.integer (-3)) _ _ rfl (by decide) rfl rfl rfl
      (by decide) hadmits ["station", "degrees"] (by decide) true
  exact ⟨hadmits, filter, hfilter, hiff.mpr (by decide)⟩

/-- Frost is below ten degrees, but not by its bytes. -/
theorem compile_not_accepts_whole :
    Operator.lt.admits (.integer (-3)) (.integer 10) = true ∧
      (report "bern" (-3) "clear").cell? "r" "degrees" = some (Scalar.integer (-3)).toBytes ∧
      ∃ filter, compile stations [⟨"degrees", .lt, .integer 10, .integer⟩]
          ["station", "degrees"] true = some filter ∧
        filter.accepts (report "bern" (-3) "clear") = false :=
  ⟨by decide, by decide, _, rfl, by decide⟩

end ScanFilter

end KeyScan
