import KeyScan.Proofs.Filter.RowKey
import KeyScan.Store.Reads

/-! # Reading under compiled conditions

Compiling the row-key conditions into a filter refuses the rows that these conditions do not admit
and changes nothing else: neither the other conditions nor what is left of a row. -/

namespace KeyScan

namespace ScanFilter

private theorem isFirstKeyOnly_of_mem_intervals {low : Option ScanFilter}
    (hlow : ∀ filter ∈ low, filter.isFirstKeyOnly = false) {conditions : List Condition}
    {filter : ScanFilter} (h : filter ∈ intervals low conditions) :
    filter.isFirstKeyOnly = false := by
  induction conditions generalizing low with
  | nil => exact hlow filter (Option.mem_toList.mp h)
  | cons c rest ih =>
      have hleaf : (ofRowKeyCondition c).isFirstKeyOnly = false := rfl
      simp only [intervals] at h
      split at h
      · split at h
        · rcases List.mem_cons.mp h with rfl | h
          · rfl
          · exact ih (by simp) h
        · rcases List.mem_cons.mp h with rfl | h
          · exact hleaf
          · exact ih (by simp) h
      · split at h
        · rcases List.mem_append.mp h with h | h
          · exact hlow filter (Option.mem_toList.mp h)
          · exact ih (by simpa using hleaf) h
        · rcases List.mem_append.mp h with h | h
          · exact hlow filter (Option.mem_toList.mp h)
          · rcases List.mem_cons.mp h with rfl | h
            · exact hleaf
            · exact ih (by simp) h

/-- The filter of row-key conditions does not ask for first cells. -/
theorem isFirstKeyOnly_of_rowKeyGroup {conditions : List Condition} {group : ScanFilter}
    (h : rowKeyGroup conditions = some group) : group.isFirstKeyOnly = false := by
  rw [rowKeyGroup] at h
  cases hchildren : intervals none conditions with
  | nil => simp [hchildren, any?] at h
  | cons first rest =>
      cases rest with
      | nil =>
          have hmem : first ∈ intervals none conditions := by simp [hchildren]
          have hfirst := isFirstKeyOnly_of_mem_intervals (by simp) hmem
          simp only [hchildren, any?, Option.some.injEq] at h
          rwa [← h]
      | cons second rest =>
          simp only [hchildren, any?, Option.some.injEq] at h
          rw [← h]
          rfl

end ScanFilter

namespace ScanRequest

/-- A request reads the rows that its filter accepts. -/
theorem key_of_read {request : ScanRequest} {row out : Row} (h : request.read row = some out) :
    out.key = row.key := by
  have hproject : ∀ columns, (row.project columns).key = row.key := by
    intro columns
    rw [Row.project]
    split <;> rfl
  rw [read] at h
  split at h
  · rw [← Option.some.inj h]
    exact hproject _
  · split at h
    · rw [← Option.some.inj h]
      split
      · rfl
      · exact hproject _
    · simp at h

/-- The request for some columns under conditions, of which those on the row key may be left to the
keys that are read. -/
def under (info : TableMeta) (conditions : List Condition) (projection : List String)
    (columns : List CellAddress) (rowKeyEncoded : Bool) : ScanRequest where
  columns := columns
  filter := ScanFilter.compile info conditions projection rowKeyEncoded

variable {info : TableMeta} {conditions : List Condition} {projection : List String}
  {columns : List CellAddress}

/-- With the row-key conditions in the filter, the rows are read that they admit, and each as it is
without them. -/
theorem read_under_false (row : Row) :
    (under info conditions projection columns false).read row =
      if ScanFilter.admitsRowKey info conditions row then
        (under info conditions projection columns true).read row
      else none := by
  rw [ScanFilter.admitsRowKey]
  cases hgroup : ScanFilter.rowKeyGroup (conditionsOn info.rowKeyColumn conditions) with
  | none => simp [read, under, ScanFilter.compile, hgroup]
  | some group =>
      have hkeyOnly : group.isFirstKeyOnly = false :=
        ScanFilter.isFirstKeyOnly_of_rowKeyGroup hgroup
      by_cases hprojection : projection = [info.rowKeyColumn]
      · simp [read, under, ScanFilter.compile, hgroup, hprojection, ScanFilter.isKeyOnly,
          ScanFilter.isFirstKeyOnly, ScanFilter.accepts, ScanFilter.allAccept]
      · simp only [read, under, ScanFilter.compile, hgroup, hprojection, if_true, if_false,
          Bool.false_eq_true, Option.toList_some, Option.toList_none, List.cons_append,
          List.nil_append, Option.all_some]
        generalize List.filterMap _ _ = columnGroups
        cases columnGroups with
        | nil => simp [ScanFilter.isKeyOnly, hkeyOnly]
        | cons first rest =>
            by_cases haccepts : group.accepts row = true <;>
              simp [ScanFilter.isKeyOnly, hkeyOnly, haccepts]

/-- With the row key left out, only the other conditions count. -/
theorem under_true_congr {others : List Condition}
    (h : (conditions.filter fun c => c.column ≠ info.rowKeyColumn) =
      others.filter fun c => c.column ≠ info.rowKeyColumn) :
    under info conditions projection columns true = under info others projection columns true := by
  simp only [under, ScanFilter.compile, h, if_true]

/-- Where all conditions are on the row key and it is left out, every row is read. -/
theorem isSome_read_under_true (h : ∀ c ∈ conditions, c.column = info.rowKeyColumn) (row : Row) :
    ((under info conditions projection columns true).read row).isSome := by
  have hothers : (conditions.filter fun c => c.column ≠ info.rowKeyColumn) =
      ([] : List Condition).filter fun c => c.column ≠ info.rowKeyColumn := by
    rw [List.filter_nil, List.filter_eq_nil_iff]
    intro c hc
    simp [h c hc]
  rw [under_true_congr hothers]
  by_cases hprojection : projection = [info.rowKeyColumn]
  · simp [read, under, ScanFilter.compile, hprojection, ScanFilter.accepts]
  · simp [read, under, ScanFilter.compile, hprojection, ScanFilter.byColumn, OrderedMap.empty]

end ScanRequest

end KeyScan
