import KeyScan.Proofs.Planning.KeyBounds

/-! # Domains as sets of texts

Row keys and their components are texts, so a domain of a column says which texts the column may
have. A range of one value stands for the text of that value in the type of the column; any other
range holds the texts between its ends, byte by byte. -/

namespace KeyScan

/-- The text lies in the range. A single value that is not of the column's type asks for nothing. -/
def ValueRange.AdmitsText (type : ColumnType) (text : Key) (range : ValueRange) : Prop :=
  match range.singleValue? with
  | some value => ∀ converted ∈ value.convert? type, text = converted.key
  | none => range.AdmitsKey text

/-- The text lies in the domain. -/
def Domain.AdmitsText (text : Key) (domain : Domain) : Prop :=
  match domain.values with
  | .single value => ∀ converted ∈ value.convert? domain.columnType, text = converted.key
  | .ranges ranges => ∃ range ∈ ranges, range.AdmitsText domain.columnType text

/-- The text lies in the domain of the column, if the column is constrained. -/
def Constraint.AdmitsText (constraint : Constraint) (column : String) (text : Key) : Prop :=
  match constraint with
  | .unavailable => True
  | .columns domains => ∀ entry ∈ domains.entries, entry.1 = column → entry.2.AdmitsText text

variable {constraint : Constraint} {column : String} {text : Key} {type : ColumnType}

/-! ### Ranges -/

theorem ValueRange.admitsText_of_singleValue? {range : ValueRange} {value : Scalar}
    (h : range.singleValue? = some value) :
    range.AdmitsText type text ↔ ∀ converted ∈ value.convert? type, text = converted.key := by
  rw [AdmitsText, h]

theorem ValueRange.admitsText_of_proper {range : ValueRange} (h : range.singleValue? = none) :
    range.AdmitsText type text ↔ range.AdmitsKey text := by
  rw [AdmitsText, h]

theorem ValueRange.operator_ne_eq_of_proper {range : ValueRange} {column : String}
    {type : ColumnType} (h : range.singleValue? = none) {c : Condition}
    (hc : c ∈ range.conditions column type) : c.operator ≠ .eq := by
  rw [conditions_eq_append h] at hc
  obtain ⟨low, high⟩ := range
  cases low <;> cases high <;> simp [Bound.lowConditions, Bound.highConditions] at hc <;>
    rcases hc with rfl | rfl <;> simp

theorem ValueRange.equality_mem_conditions {range : ValueRange} {value : Scalar}
    (h : range.singleValue? = some value) (column : String) (type : ColumnType) :
    (⟨column, .eq, value, type⟩ : Condition) ∈ range.conditions column type := by
  rw [conditions, h]
  exact List.mem_singleton_self _

/-- The equalities among the conditions of a range are those of its single value. -/
theorem ValueRange.equality_mem_conditions_iff {range : ValueRange} {c : Condition} :
    c ∈ range.conditions column type ∧ c.operator = .eq ↔
      ∃ value ∈ range.singleValue?, c = ⟨column, .eq, value, type⟩ := by
  cases hsingle : range.singleValue? with
  | some value =>
      have hconditions : range.conditions column type = [⟨column, .eq, value, type⟩] := by
        simp [conditions, hsingle]
      simp only [hconditions, List.mem_singleton, Option.mem_some_iff, exists_eq_left']
      refine ⟨And.left, ?_⟩
      rintro rfl
      exact ⟨rfl, rfl⟩
  | none =>
      have hproper := @operator_ne_eq_of_proper range column type hsingle c
      simpa using hproper

/-- Any value is a text as it is. -/
theorem Scalar.convert?_varchar (value : Scalar) : value.convert? .varchar = some value := by
  cases value <;> rfl

/-- On a row key, which is a text, the conditions of a range ask for what the range holds. -/
theorem ValueRange.forall_conditions_iff_admitsText {range : ValueRange} :
    (∀ c ∈ range.conditions column type, c.AdmitsKey text) ↔ range.AdmitsText .varchar text := by
  cases hsingle : range.singleValue? with
  | some value =>
      rw [admitsText_of_singleValue? hsingle, conditions, hsingle]
      simp [Scalar.convert?_varchar, Condition.AdmitsKey, Comparison.ofOperator, Comparison.holds]
  | none =>
      rw [admitsText_of_proper hsingle]
      exact forall_conditions_admitsKey_iff hsingle text

/-- A text of a domain with conditions is what an equality among them asks for, or there is an
inequality among them. -/
theorem Domain.exists_equality_or_inequality {domain : Domain} (h : domain.Ascending)
    (hne : domain.conditions column ≠ []) (htext : domain.AdmitsText text) :
    (∃ value, (⟨column, .eq, value, domain.columnType⟩ : Condition) ∈ domain.conditions column ∧
        ∀ converted ∈ value.convert? domain.columnType, text = converted.key) ∨
      ∃ c ∈ domain.conditions column, c.operator ≠ .eq := by
  obtain ⟨type, values⟩ := domain
  cases values with
  | single value => exact Or.inl ⟨value, List.mem_singleton_self _, htext⟩
  | ranges ranges =>
      obtain ⟨range, hrange, hadmits⟩ := htext
      cases hsingle : range.singleValue? with
      | some value =>
          rw [ValueRange.admitsText_of_singleValue? hsingle] at hadmits
          have hmem := ValueRange.equality_mem_conditions hsingle column type
          exact Or.inl ⟨value, List.mem_flatMap.mpr ⟨range, hrange, hmem⟩, hadmits⟩
      | none =>
          cases hconditions : range.conditions column type with
          | nil =>
              -- A range without conditions is the only one, but the domain has conditions.
              obtain ⟨hlow, hhigh⟩ := ValueRange.unbounded_of_conditions_eq_nil hconditions
              have hall := (h ranges rfl).eq_singleton hrange hlow hhigh
              simp [Domain.conditions, hall, hconditions] at hne
          | cons c rest =>
              have hc : c ∈ range.conditions column type := by simp [hconditions]
              exact Or.inr ⟨c, List.mem_flatMap.mpr ⟨range, hrange, hc⟩,
                ValueRange.operator_ne_eq_of_proper hsingle hc⟩

theorem Constraint.admitsText_of_domain? {domain : Domain}
    (hdomain : constraint.domain? column = some domain) (h : constraint.AdmitsText column text) :
    domain.AdmitsText text := by
  cases constraint with
  | unavailable => simp [domain?] at hdomain
  | columns domains => exact h _ (OrderedMap.mem_of_find?_eq_some hdomain) rfl

/-! ### The row key -/

namespace KeyBounds

theorem mem_keyRange_of_equality {rowKey : List Condition} {c : Condition} (hc : c ∈ rowKey)
    (h : c.operator = .eq) (key : Key) : key ∈ (ofRowKeyConditions rowKey).keyRange := by
  rw [ofRowKeyConditions_of_equality hc h]
  exact KeyRange.mem_unbounded key

theorem mem_keyRange_of_domain {domain : Domain} (h : domain.Ascending)
    (htext : domain.AdmitsText text) :
    text ∈ (ofRowKeyConditions (domain.conditions column)).keyRange := by
  obtain ⟨type, values⟩ := domain
  cases values with
  | single value =>
      exact mem_keyRange_of_equality (List.mem_singleton_self _) rfl text
  | ranges ranges =>
      obtain ⟨range, hrange, hadmits⟩ := htext
      cases hsingle : range.singleValue? with
      | some value =>
          have hmem := ValueRange.equality_mem_conditions hsingle column type
          exact mem_keyRange_of_equality (List.mem_flatMap.mpr ⟨range, hrange, hmem⟩) rfl text
      | none =>
          rw [ValueRange.admitsText_of_proper hsingle] at hadmits
          exact mem_keyRange_of_admitsKey (h ranges rfl) hrange
            ((ValueRange.forall_conditions_admitsKey_iff hsingle text).mpr hadmits)

/-- A row key that lies in its domain lies in the hull of the row-key conditions. -/
theorem mem_keyRange_of_admitsText (h : constraint.Ordered) {info : TableMeta}
    (htext : constraint.AdmitsText info.rowKeyColumn text) :
    text ∈ (ofConditions constraint.conditions info).keyRange := by
  rw [ofConditions]
  split
  · rw [Constraint.conditionsOn_conditions h]
    cases hdomain : constraint.domain? info.rowKeyColumn with
    | none => exact KeyRange.mem_unbounded text
    | some domain =>
        exact mem_keyRange_of_domain (Constraint.ascending_of_domain? h hdomain)
          (Constraint.admitsText_of_domain? hdomain htext)
  · exact KeyRange.mem_unbounded text

end KeyBounds

/-! ### Constraints on the row key alone -/

/-- The row key lies in one of the ranges. -/
def TableMeta.rowKeyIn (info : TableMeta) (type : ColumnType) (ranges : List ValueRange) :
    Constraint :=
  Constraint.all.withColumn info.rowKeyColumn ⟨type, .ranges ranges⟩

variable {info : TableMeta} {ranges : List ValueRange}

theorem TableMeta.conditions_rowKeyIn :
    (info.rowKeyIn type ranges).conditions =
      ranges.flatMap (ValueRange.conditions info.rowKeyColumn type) := by
  simp [rowKeyIn, Constraint.all, Constraint.withColumn, OrderedMap.insert, OrderedMap.empty,
    OrderedMap.insertEntry, Constraint.conditions, Domain.conditions]

theorem TableMeta.column_of_mem_rowKeyIn {c : Condition}
    (h : c ∈ (info.rowKeyIn type ranges).conditions) : c.column = info.rowKeyColumn := by
  rw [conditions_rowKeyIn] at h
  exact @Constraint.column_of_mem_conditions ⟨type, .ranges ranges⟩ _ _ h

/-- Where the ranges are in order, so is the constraint. -/
theorem TableMeta.ordered_rowKeyIn (h : ValueRange.Ascending ranges) :
    (info.rowKeyIn type ranges).Ordered := by
  refine ⟨List.pairwise_singleton _ _, ?_⟩
  rintro entry hentry others hothers
  obtain rfl := List.mem_singleton.mp hentry
  obtain rfl := DomainValues.ranges.inj hothers
  exact h

/-- The row-key filter of ranges of row keys admits the keys in the ranges. -/
theorem admitsRowKey_rowKeyIn_iff (h : ValueRange.Ascending ranges) (hne : ranges ≠ [])
    (row : Row) :
    ScanFilter.admitsRowKey info (info.rowKeyIn type ranges).conditions row = true ↔
      ∃ range ∈ ranges, range.AdmitsText .varchar row.key := by
  have hall : conditionsOn info.rowKeyColumn (info.rowKeyIn type ranges).conditions =
      (info.rowKeyIn type ranges).conditions :=
    List.filter_eq_self.mpr fun c hc => by simp [TableMeta.column_of_mem_rowKeyIn hc]
  rw [ScanFilter.admitsRowKey, hall, TableMeta.conditions_rowKeyIn,
    ScanFilter.rowKeyGroup_accepts_iff h hne]
  simp only [ValueRange.forall_conditions_iff_admitsText]

end KeyScan
