import KeyScan.Proofs.Filter.RowKey
import KeyScan.Proofs.Lists
import KeyScan.Proofs.OrderedMap
import Mathlib.Data.List.Induction

/-! # The filter of a scan, column by column

A compiled filter accepts a row if the row key is admitted and every column is: the conditions on a
column are alternatives, and all columns have to agree. -/

namespace KeyScan

theorem conditionsOn_append (column : String) (conditions others : List Condition) :
    conditionsOn column (conditions ++ others) =
      conditionsOn column conditions ++ conditionsOn column others :=
  List.filter_append ..

/-- The row has a cell in the column whose bytes the condition admits. -/
def Condition.AdmitsCell (c : Condition) (family : String) (row : Row) : Prop :=
  ∃ stored ∈ row.cell? family c.column, c.AdmitsBytes stored

namespace ScanFilter

variable {info : TableMeta} {conditions : List Condition} {column : String} {row : Row}

/-! ### Conditions by column -/

private theorem byColumn_append_singleton (conditions : List Condition) (c : Condition) :
    byColumn (conditions ++ [c]) = (byColumn conditions).insert c.column
      (((byColumn conditions).find? c.column).getD [] ++ [c]) := by
  simp [byColumn]

theorem sorted_byColumn (conditions : List Condition) : (byColumn conditions).Sorted := by
  induction conditions using List.reverseRecOn with
  | nil => exact List.Pairwise.nil
  | append_singleton conditions c ih =>
      rw [byColumn_append_singleton]
      exact OrderedMap.sorted_insert ih _ _

/-- The group of a column is made of the conditions on it, if there are any. -/
theorem find?_byColumn (conditions : List Condition) (column : String) :
    (byColumn conditions).find? column =
      if conditionsOn column conditions = [] then none
      else some (conditionsOn column conditions) := by
  induction conditions using List.reverseRecOn generalizing column with
  | nil => rfl
  | append_singleton conditions c ih =>
      rw [byColumn_append_singleton, OrderedMap.find?_insert, conditionsOn_append]
      by_cases hcolumn : c.column = column
      · subst hcolumn
        have hheld : ((byColumn conditions).find? c.column).getD [] =
            conditionsOn c.column conditions := by
          rw [ih]
          split <;> simp_all
        simp [hheld, conditionsOn]
      · simp [hcolumn, ih, conditionsOn]

theorem mem_entries_byColumn_iff {group : List Condition} :
    (column, group) ∈ (byColumn conditions).entries ↔
      conditionsOn column conditions ≠ [] ∧ group = conditionsOn column conditions := by
  rw [← OrderedMap.find?_eq_some_iff (sorted_byColumn conditions), find?_byColumn]
  split <;> simp_all [eq_comm]

/-! ### The alternatives of a column -/

private theorem accepts_of_ofColumnCondition {family : String} {c : Condition} {leaf : ScanFilter}
    (h : ofColumnCondition family c = some leaf) :
    leaf.accepts row = true ↔ c.AdmitsCell family row := by
  rw [ofColumnCondition] at h
  cases hvalue : c.value.convert? c.valueType with
  | none => simp [hvalue] at h
  | some value =>
      obtain rfl : _ = leaf := by simpa [hvalue] using h
      cases hcell : row.cell? family c.column <;>
        simp [accepts, CellFilter.accepts, Condition.AdmitsCell, Condition.AdmitsBytes, hvalue, hcell]

private theorem isSome_ofColumnCondition (family : String) (c : Condition) :
    (ofColumnCondition family c).isSome = (c.value.convert? c.valueType).isSome := by
  rw [ofColumnCondition]
  cases c.value.convert? c.valueType <;> rfl

/-- A column refuses a row only where its family is known and all values are of its type: then one
of its conditions has to admit the cell. -/
theorem all_accepts_columnGroup_iff (hne : conditions ≠ []) :
    (columnGroup info column conditions).all (accepts row) = true ↔
      ∀ family ∈ info.family? column,
        (∀ c ∈ conditions, (c.value.convert? c.valueType).isSome = true) →
          ∃ c ∈ conditions, c.AdmitsCell family row := by
  rw [columnGroup]
  cases info.family? column with
  | none => simp
  | some family =>
      have hsome : (∀ c ∈ conditions, (c.value.convert? c.valueType).isSome = true) ↔
          (conditions.mapM (ofColumnCondition family)).isSome = true := by
        rw [isSome_mapM_iff]
        simp only [isSome_ofColumnCondition]
      simp only [Option.mem_def, Option.some.injEq, forall_eq', hsome, Option.bind_eq_bind,
        Option.bind_some]
      cases hleaves : conditions.mapM (ofColumnCondition family) with
      | none => simp
      | some leaves =>
          have hempty : leaves.isEmpty = false := by
            obtain ⟨c, hc⟩ := List.exists_mem_of_ne_nil conditions hne
            obtain ⟨leaf, hleaf, _⟩ := exists_mem_of_mapM hleaves hc
            simpa using List.ne_nil_of_mem hleaf
          rw [Option.bind_some, all_accepts_any?, hempty, Bool.false_or, List.any_eq_true]
          simp only [Option.isSome_some, forall_const]
          constructor
          · rintro ⟨leaf, hleaf, haccepts⟩
            obtain ⟨c, hc, heq⟩ := mem_of_mapM hleaves hleaf
            exact ⟨c, hc, (accepts_of_ofColumnCondition heq).mp haccepts⟩
          · rintro ⟨c, hc, hadmits⟩
            obtain ⟨leaf, hleaf, heq⟩ := exists_mem_of_mapM hleaves hc
            exact ⟨leaf, hleaf, (accepts_of_ofColumnCondition heq).mpr hadmits⟩

/-! ### All columns -/

/-- The conditions on every column but the row key are met, as far as the store can tell. -/
def AdmitsColumns (info : TableMeta) (conditions : List Condition) (row : Row) : Prop :=
  ∀ column, column ≠ info.rowKeyColumn → conditionsOn column conditions ≠ [] →
    (columnGroup info column (conditionsOn column conditions)).all (accepts row) = true

theorem all_accepts_columnGroups_iff :
    (((byColumn (conditions.filter fun c => c.column ≠ info.rowKeyColumn)).entries.filterMap
      fun entry => columnGroup info entry.1 entry.2).all (accepts row)) = true ↔
      AdmitsColumns info conditions row := by
  have hon : ∀ column, conditionsOn column
      (conditions.filter fun c => c.column ≠ info.rowKeyColumn) =
        if column = info.rowKeyColumn then [] else conditionsOn column conditions := by
    intro column
    rw [conditionsOn, List.filter_filter]
    split
    · rw [List.filter_eq_nil_iff]
      simp_all
    · exact List.filter_congr fun c _ => by grind
  rw [List.all_eq_true, AdmitsColumns]
  constructor
  · intro hall column hcolumn hne
    cases hgroup : columnGroup info column (conditionsOn column conditions) with
    | none => rfl
    | some group =>
        refine hall group (List.mem_filterMap.mpr ⟨(column, _), ?_, hgroup⟩)
        rw [mem_entries_byColumn_iff, hon, if_neg hcolumn]
        exact ⟨hne, rfl⟩
  · intro hall group hgroup
    obtain ⟨⟨column, held⟩, hentry, hgroup⟩ := List.mem_filterMap.mp hgroup
    rw [mem_entries_byColumn_iff, hon] at hentry
    obtain ⟨hne, rfl⟩ := hentry
    have hcolumn : column ≠ info.rowKeyColumn := by
      rintro rfl
      simp at hne
    rw [if_neg hcolumn] at hgroup hne
    have haccepts := hall column hcolumn hne
    rwa [hgroup] at haccepts

/-- What a compiled filter accepts: the row-key conditions count unless they are left out, and those
on other columns unless the row key alone is projected. -/
theorem all_accepts_compile_iff (projection : List String) (rowKeyEncoded : Bool) :
    (compile info conditions projection rowKeyEncoded).all (accepts row) = true ↔
      (rowKeyEncoded = false → admitsRowKey info conditions row = true) ∧
        (projection ≠ [info.rowKeyColumn] → AdmitsColumns info conditions row) := by
  rw [← all_accepts_columnGroups_iff, admitsRowKey]
  simp only [compile]
  generalize List.filterMap _ _ = columnGroups
  generalize rowKeyGroup _ = group
  by_cases hprojection : projection = [info.rowKeyColumn]
  · cases rowKeyEncoded <;> cases group <;> simp [hprojection, accepts, allAccept]
  · cases rowKeyEncoded <;> cases group <;> cases columnGroups <;> simp [hprojection]

end ScanFilter

end KeyScan
