import KeyScan.Constraint
import KeyScan.Filter.Basic
import KeyScan.Proofs.OrderedMap

/-! # Constraints whose ranges come in order

The ranges of a domain are sorted and disjoint. Whatever the order of the values is, this leaves only
the first range open below and only the last one open above. -/

namespace KeyScan

/-! ### Conditions and ranges on row keys -/

/-- Where all conditions on a column are equalities, these are the conditions on it. -/
theorem filter_isEqualityOn {conditions : List Condition} {column : String}
    (h : ∀ c ∈ conditions, c.column = column → c.operator = .eq) :
    (conditions.filter fun c => c.isEqualityOn column) = conditionsOn column conditions := by
  apply List.filter_congr
  intro c hc
  by_cases hcolumn : c.column = column
  · simp [Condition.isEqualityOn, hcolumn, h c hc hcolumn]
  · simp [Condition.isEqualityOn, hcolumn]

/-- The key stands to the key text of the value as the operator says. -/
def Condition.AdmitsKey (c : Condition) (key : Key) : Prop :=
  (Comparison.ofOperator c.operator).holds key c.value.key = true

/-- The value of an end. -/
def Bound.value? : Bound → Option Scalar
  | .included value => some value
  | .excluded value => some value
  | .unbounded => none

/-- The bytes stand to those of the value, in the type of the column, as the operator says. -/
def Condition.AdmitsBytes (c : Condition) (bytes : List UInt8) : Prop :=
  ∃ value ∈ c.value.convert? c.valueType,
    (Comparison.ofOperator c.operator).holds bytes value.toBytes = true

/-- The key is not below the end, by the key text of its value. -/
def Bound.AdmitsFrom (key : Key) : Bound → Prop
  | .included value => value.key ≤ key
  | .excluded value => value.key < key
  | .unbounded => True

/-- The key is not above the end, by the key text of its value. -/
def Bound.AdmitsUpTo (key : Key) : Bound → Prop
  | .included value => key ≤ value.key
  | .excluded value => key < value.key
  | .unbounded => True

instance (key : Key) : (bound : Bound) → Decidable (bound.AdmitsFrom key)
  | .included value => inferInstanceAs (Decidable (value.key ≤ key))
  | .excluded value => inferInstanceAs (Decidable (value.key < key))
  | .unbounded => inferInstanceAs (Decidable True)

instance (key : Key) : (bound : Bound) → Decidable (bound.AdmitsUpTo key)
  | .included value => inferInstanceAs (Decidable (key ≤ value.key))
  | .excluded value => inferInstanceAs (Decidable (key < value.key))
  | .unbounded => inferInstanceAs (Decidable True)

namespace ValueRange

/-- The key lies between the ends of the range. -/
def AdmitsKey (range : ValueRange) (key : Key) : Prop :=
  range.low.AdmitsFrom key ∧ range.high.AdmitsUpTo key

instance (range : ValueRange) (key : Key) : Decidable (range.AdmitsKey key) :=
  inferInstanceAs (Decidable (_ ∧ _))

/-- What being sorted and disjoint means for the ends of ranges: of two ranges the earlier one has an
upper end and the later one a lower end. -/
def Ascending (ranges : List ValueRange) : Prop :=
  ranges.Pairwise fun a b => a.high ≠ .unbounded ∧ b.low ≠ .unbounded

variable {range : ValueRange} {column : String} {type : ColumnType}

theorem conditions_eq_append (h : range.singleValue? = none) :
    range.conditions column type =
      range.low.lowConditions column type ++ range.high.highConditions column type := by
  rw [conditions, h]

theorem forall_conditions_admitsKey_iff (h : range.singleValue? = none) (key : Key) :
    (∀ c ∈ range.conditions column type, c.AdmitsKey key) ↔ range.AdmitsKey key := by
  rw [conditions_eq_append h, AdmitsKey]
  obtain ⟨low, high⟩ := range
  cases low <;> cases high <;>
    simp [Bound.lowConditions, Bound.highConditions, Bound.AdmitsFrom, Bound.AdmitsUpTo,
      Condition.AdmitsKey, Comparison.ofOperator, Comparison.holds]

theorem exists_lower_condition (h : range.singleValue? = none) (hlow : range.low ≠ .unbounded) :
    ∃ c ∈ range.conditions column type, c.operator.isLowerBound = true := by
  rw [conditions_eq_append h]
  obtain ⟨low, high⟩ := range
  cases low <;> simp_all [Bound.lowConditions, Operator.isLowerBound]

theorem exists_upper_condition (h : range.singleValue? = none) (hhigh : range.high ≠ .unbounded) :
    ∃ c ∈ range.conditions column type, c.operator.isUpperBound = true := by
  rw [conditions_eq_append h]
  obtain ⟨low, high⟩ := range
  cases high <;> simp_all [Bound.highConditions, Operator.isUpperBound]

/-- A range without conditions is open on both sides. -/
theorem unbounded_of_conditions_eq_nil (h : range.conditions column type = []) :
    range.low = .unbounded ∧ range.high = .unbounded := by
  obtain ⟨low, high⟩ := range
  rw [conditions] at h
  split at h
  · simp at h
  · cases low <;> cases high <;> simp_all [Bound.lowConditions, Bound.highConditions]

/-- A range that is open on both sides leaves no room for another. -/
theorem Ascending.eq_singleton {ranges : List ValueRange} (h : Ascending ranges)
    (hmem : range ∈ ranges) (hlow : range.low = .unbounded) (hhigh : range.high = .unbounded) :
    ranges = [range] := by
  cases ranges with
  | nil => simp at hmem
  | cons first rest =>
      have hhead := (List.pairwise_cons.mp h).1
      rcases List.mem_cons.mp hmem with rfl | hrest
      · cases rest with
        | nil => rfl
        | cons next rest => exact absurd hhigh (hhead next (by simp)).1
      · exact absurd hlow (hhead range hrest).2

end ValueRange

/-! ### Constraints -/

/-- The ranges of the domain are sorted and disjoint. -/
def Domain.Ascending (domain : Domain) : Prop :=
  ∀ ranges, domain.values = .ranges ranges → ValueRange.Ascending ranges

namespace Constraint

/-- Each column has one domain, and the ranges of a domain are sorted and disjoint. -/
def Ordered : Constraint → Prop
  | unavailable => True
  | columns domains => domains.Sorted ∧ ∀ entry ∈ domains.entries, entry.2.Ascending

private theorem column_of_mem_rangeConditions {range : ValueRange} {column : String}
    {type : ColumnType} {c : Condition} (h : c ∈ range.conditions column type) :
    c.column = column := by
  obtain ⟨low, high⟩ := range
  rw [ValueRange.conditions] at h
  split at h
  · simp_all
  · cases low <;> cases high <;> simp_all [Bound.lowConditions, Bound.highConditions] <;> grind

theorem column_of_mem_conditions {domain : Domain} {column : String} {c : Condition}
    (h : c ∈ domain.conditions column) : c.column = column := by
  rw [Domain.conditions] at h
  split at h
  · simp_all
  · obtain ⟨range, _, hc⟩ := List.mem_flatMap.mp h
    exact column_of_mem_rangeConditions hc

private theorem conditionsOn_domainConditions (domain : Domain) (name column : String) :
    conditionsOn column (domain.conditions name) =
      if name = column then domain.conditions name else [] := by
  have hcolumn : ∀ c ∈ domain.conditions name, c.column = name :=
    fun c hc => column_of_mem_conditions hc
  rw [conditionsOn]
  split
  · rw [List.filter_eq_self]
    simp_all
  · rw [List.filter_eq_nil_iff]
    simp_all

private theorem conditionsOn_flatMap (column : String) {entries : List (String × Domain)}
    (hsorted : entries.Pairwise fun a b => a.1 < b.1) :
    conditionsOn column (entries.flatMap fun entry => entry.2.conditions entry.1) =
      (((entries.find? fun entry => entry.1 = column).map Prod.snd).map
        (Domain.conditions column)).getD [] := by
  induction entries with
  | nil => rfl
  | cons entry rest ih =>
      obtain ⟨hhead, htail⟩ := List.pairwise_cons.mp hsorted
      have hsplit : conditionsOn column
          ((entry :: rest).flatMap fun entry => entry.2.conditions entry.1) =
          conditionsOn column (entry.2.conditions entry.1) ++
            conditionsOn column (rest.flatMap fun entry => entry.2.conditions entry.1) := by
        simp [conditionsOn, List.flatMap_cons]
      rw [hsplit, conditionsOn_domainConditions, ih htail]
      by_cases hname : entry.1 = column
      · have hrest : (rest.find? fun entry => entry.1 = column) = none := by
          rw [List.find?_eq_none]
          intro other hother
          have hlt := hhead other hother
          rw [hname] at hlt
          simpa using (String.ne_of_lt hlt).symm
        simp [hname, hrest]
      · simp [hname]

/-- The domain of a column, if it is constrained. -/
def domain? (constraint : Constraint) (column : String) : Option Domain :=
  match constraint with
  | unavailable => none
  | columns domains => domains.find? column

theorem ascending_of_domain? {constraint : Constraint} (h : constraint.Ordered) {column : String}
    {domain : Domain} (hdomain : constraint.domain? column = some domain) : domain.Ascending := by
  cases constraint with
  | unavailable => simp [domain?] at hdomain
  | columns domains => exact h.2 _ (OrderedMap.mem_of_find?_eq_some hdomain)

/-- The conditions on a column are those of its one domain, if it has any. -/
theorem conditionsOn_conditions {constraint : Constraint} (h : constraint.Ordered)
    (column : String) :
    conditionsOn column constraint.conditions =
      ((constraint.domain? column).map (Domain.conditions column)).getD [] := by
  cases constraint with
  | unavailable => rfl
  | columns domains => exact conditionsOn_flatMap column h.1

end Constraint

end KeyScan
