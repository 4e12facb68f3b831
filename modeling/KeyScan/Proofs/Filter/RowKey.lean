import KeyScan.Filter.Compile
import KeyScan.Proofs.Constraint.Order

/-! # The filter of row-key conditions

Conditions that come range by range compile into one filter for each range, so the filter admits the
keys of the ranges. -/

namespace KeyScan.ScanFilter

variable {row : Row} {column : String} {type : ColumnType}

@[simp] theorem accepts_ofRowKeyCondition (c : Condition) (row : Row) :
    (ofRowKeyCondition c).accepts row = true ↔ c.AdmitsKey row.key :=
  Iff.rfl

@[simp] theorem accepts_allOf (children : List ScanFilter) :
    (allOf children).accepts row = children.all (accepts row) := by
  rw [accepts, allAccept_eq_all]

@[simp] theorem accepts_anyOf (children : List ScanFilter) :
    (anyOf children).accepts row = children.any (accepts row) := by
  rw [accepts, anyAccepts_eq_any]

/-- Joined alternatives admit a row that one of them admits, and every row if there are none. -/
theorem all_accepts_any? (children : List ScanFilter) :
    (any? children).all (accepts row) = (children.isEmpty || children.any (accepts row)) := by
  match children with
  | [] => rfl
  | [only] => simp [any?]
  | first :: second :: rest => simp [any?]

/-! ### Intervals -/

/-- The filter of the conditions of one range, of which there are at most two. -/
def ofRange? : List Condition → Option ScanFilter
  | [] => none
  | [only] => some (ofRowKeyCondition only)
  | conditions => some (allOf (conditions.map ofRowKeyCondition))

theorem ofRange?_eq_none_iff (conditions : List Condition) :
    ofRange? conditions = none ↔ conditions = [] := by
  match conditions with
  | [] => simp [ofRange?]
  | [only] => simp [ofRange?]
  | first :: second :: rest => simp [ofRange?]

theorem all_accepts_ofRange? (conditions : List Condition) :
    (ofRange? conditions).all (accepts row) = true ↔ ∀ c ∈ conditions, c.AdmitsKey row.key := by
  match conditions with
  | [] => simp [ofRange?]
  | [only] => simp [ofRange?]
  | first :: second :: rest => simp [ofRange?]

/-- The conditions of a range form one interval. A range that is open above has to be the last, as
the next condition could close it. -/
theorem intervals_rangeConditions (range : ValueRange) (rest : List Condition)
    (hlast : range.high = .unbounded → rest = []) :
    intervals none (range.conditions column type ++ rest) =
      (ofRange? (range.conditions column type)).toList ++ intervals none rest := by
  cases hsingle : range.singleValue? with
  | some value =>
      rw [ValueRange.conditions, hsingle]
      rfl
  | none =>
      rw [ValueRange.conditions_eq_append hsingle]
      obtain ⟨low, high⟩ := range
      cases high with
      | unbounded =>
          obtain rfl := hlast rfl
          cases low <;> rfl
      | included value => cases low <;> rfl
      | excluded value => cases low <;> rfl

theorem intervals_conditions {ranges : List ValueRange} (h : ValueRange.Ascending ranges) :
    intervals none (ranges.flatMap (ValueRange.conditions column type)) =
      ranges.filterMap fun range => ofRange? (range.conditions column type) := by
  induction ranges with
  | nil => rfl
  | cons range rest ih =>
      obtain ⟨hhead, htail⟩ := List.pairwise_cons.mp h
      have hlast : range.high = .unbounded →
          rest.flatMap (ValueRange.conditions column type) = [] := by
        intro hopen
        cases rest with
        | nil => rfl
        | cons next rest => exact absurd hopen (hhead next (by simp)).1
      rw [List.flatMap_cons, intervals_rangeConditions range _ hlast, ih htail,
        List.filterMap_cons]
      cases ofRange? (range.conditions column type) <;> rfl

/-- The row-key filter of ascending ranges admits the rows whose key meets all conditions of one of
them. -/
theorem rowKeyGroup_accepts_iff {ranges : List ValueRange} (h : ValueRange.Ascending ranges)
    (hne : ranges ≠ []) :
    (rowKeyGroup (ranges.flatMap (ValueRange.conditions column type))).all (accepts row) = true ↔
      ∃ range ∈ ranges, ∀ c ∈ range.conditions column type, c.AdmitsKey row.key := by
  rw [rowKeyGroup, all_accepts_any?, intervals_conditions h, Bool.or_eq_true, List.any_eq_true]
  constructor
  · rintro (hempty | ⟨filter, hfilter, haccepts⟩)
    · obtain ⟨range, hrange⟩ := List.exists_mem_of_ne_nil ranges hne
      have hnone : ofRange? (range.conditions column type) = none :=
        List.filterMap_eq_nil_iff.mp (List.isEmpty_iff.mp hempty) range hrange
      rw [ofRange?_eq_none_iff] at hnone
      exact ⟨range, hrange, by simp [hnone]⟩
    · obtain ⟨range, hrange, hsome⟩ := List.mem_filterMap.mp hfilter
      refine ⟨range, hrange, ?_⟩
      rw [← all_accepts_ofRange?, hsome]
      exact haccepts
  · rintro ⟨range, hrange, hadmits⟩
    rw [← all_accepts_ofRange?] at hadmits
    cases hfilter : ofRange? (range.conditions column type) with
    | none =>
        have hopen := ValueRange.unbounded_of_conditions_eq_nil
          ((ofRange?_eq_none_iff _).mp hfilter)
        rw [h.eq_singleton hrange hopen.1 hopen.2]
        exact Or.inl (by simp [hfilter])
    | some filter =>
        rw [hfilter] at hadmits
        exact Or.inr ⟨filter, List.mem_filterMap.mpr ⟨range, hrange, hfilter⟩, hadmits⟩

/-- Equalities stand for themselves. -/
theorem intervals_equalities {conditions : List Condition}
    (h : ∀ c ∈ conditions, c.operator = .eq) :
    intervals none conditions = conditions.map ofRowKeyCondition := by
  induction conditions with
  | nil => rfl
  | cons c rest ih =>
      have hc : c.operator = .eq := h c (by simp)
      have hrest := ih fun other hother => h other (List.mem_cons_of_mem c hother)
      simp [intervals, hc, hrest, Operator.isUpperBound, Operator.isLowerBound]

/-- The row-key filter of equalities admits the rows whose key is the key text of a value. -/
theorem rowKeyGroup_accepts_iff_of_equalities {conditions : List Condition}
    (h : ∀ c ∈ conditions, c.operator = .eq) (hne : conditions ≠ []) :
    (rowKeyGroup conditions).all (accepts row) = true ↔
      ∃ c ∈ conditions, row.key = c.value.key := by
  have hempty : (conditions.map ofRowKeyCondition).isEmpty = false := by simpa using hne
  rw [rowKeyGroup, all_accepts_any?, intervals_equalities h, hempty, Bool.false_or,
    List.any_map, List.any_eq_true]
  apply exists_congr
  intro c
  apply and_congr_right
  intro hc
  simp [Condition.AdmitsKey, h c hc, Comparison.ofOperator, Comparison.holds]

theorem rowKeyGroup_singleton (only : Condition) :
    rowKeyGroup [only] = some (ofRowKeyCondition only) := by
  obtain ⟨column, operator, value, valueType⟩ := only
  cases operator <;> rfl

theorem rowKeyGroup_pair {low high : Condition} (hlow : low.operator.isLowerBound = true)
    (hhigh : high.operator.isUpperBound = true) :
    rowKeyGroup [low, high] = some (allOf [ofRowKeyCondition low, ofRowKeyCondition high]) := by
  have hlow' : low.operator.isUpperBound = false := by
    cases hoperator : low.operator <;> simp_all [Operator.isLowerBound, Operator.isUpperBound]
  simp [rowKeyGroup, intervals, any?, hlow, hlow', hhigh]

/-- The row passes the filter of the row-key conditions, if they give one. -/
def admitsRowKey (info : TableMeta) (conditions : List Condition) (row : Row) : Bool :=
  (rowKeyGroup (conditionsOn info.rowKeyColumn conditions)).all (accepts row)

end KeyScan.ScanFilter
