import KeyScan.Proofs.Constraint.Order
import KeyScan.Proofs.Scalar.Order

/-! # Domains as sets of values

A domain of a column says which values the column may have: those that one of its ranges holds, with
the ends of the range read in the type of the column. Where the bytes of a value stand to those of the
ends as the value stands to the ends, one of the conditions of the domain admits the bytes. -/

namespace KeyScan

/-- The value stands to the operand, read in the type, as the operator says. -/
def Operator.AdmitsAs (operator : Operator) (type : ColumnType) (value operand : Scalar) : Prop :=
  ∃ converted ∈ operand.convert? type, operator.admits value converted = true

/-- The value is not below the end. -/
def Bound.AdmitsValueFrom (type : ColumnType) (value : Scalar) : Bound → Prop
  | .included low => Operator.ge.AdmitsAs type value low
  | .excluded low => Operator.gt.AdmitsAs type value low
  | .unbounded => True

/-- The value is not above the end. -/
def Bound.AdmitsValueUpTo (type : ColumnType) (value : Scalar) : Bound → Prop
  | .included high => Operator.le.AdmitsAs type value high
  | .excluded high => Operator.lt.AdmitsAs type value high
  | .unbounded => True

namespace ValueRange

/-- The value lies in the range. -/
def AdmitsValue (type : ColumnType) (value : Scalar) (range : ValueRange) : Prop :=
  range.low.AdmitsValueFrom type value ∧ range.high.AdmitsValueUpTo type value

/-- The values that the range names. -/
def bounds (range : ValueRange) : List Scalar :=
  range.low.value?.toList ++ range.high.value?.toList

end ValueRange

namespace Domain

/-- The value lies in the domain. -/
def AdmitsValue (value : Scalar) (domain : Domain) : Prop :=
  match domain.values with
  | .single only => Operator.eq.AdmitsAs domain.columnType value only
  | .ranges ranges => ∃ range ∈ ranges, range.AdmitsValue domain.columnType value

/-- The row key lies in the domain, by the key texts of the values that the domain names. -/
def AdmitsKey (key : Key) (domain : Domain) : Prop :=
  match domain.values with
  | .single only => key = only.key
  | .ranges ranges => ∃ range ∈ ranges, range.AdmitsKey key

/-- The values that the domain names. -/
def bounds (domain : Domain) : List Scalar :=
  match domain.values with
  | .single only => [only]
  | .ranges ranges => ranges.flatMap ValueRange.bounds

/-- All values that the domain names are of the type of the column. -/
def Converts (domain : Domain) : Prop :=
  ∀ bound ∈ domain.bounds, (bound.convert? domain.columnType).isSome = true

/-- The bytes of the value stand to those of the converted values as it stands to these itself. -/
def BytesAgree (value : Scalar) (domain : Domain) : Prop :=
  ∀ bound ∈ domain.bounds, ∀ converted ∈ bound.convert? domain.columnType,
    value.BytesAgree converted

end Domain

variable {column : String} {type : ColumnType} {value : Scalar}

/-! ### Ends -/

/-- A value that stands to an end as the operator says has bytes that the condition admits, where the
bytes agree with the values. -/
theorem Operator.AdmitsAs.admitsBytes {operator : Operator} {operand : Scalar}
    (h : operator.AdmitsAs type value operand)
    (hagree : ∀ converted ∈ operand.convert? type, value.BytesAgree converted) (column : String) :
    (⟨column, operator, operand, type⟩ : Condition).AdmitsBytes value.toBytes := by
  obtain ⟨converted, hconverted, hadmits⟩ := h
  exact ⟨converted, hconverted, ((hagree converted hconverted).holds_iff operator).mpr hadmits⟩

theorem Bound.exists_lowConditions_admitsBytes {bound : Bound}
    (h : bound.AdmitsValueFrom type value)
    (hagree : ∀ operand ∈ bound.value?, ∀ converted ∈ operand.convert? type,
      value.BytesAgree converted)
    (hne : bound.lowConditions column type ≠ []) :
    ∃ c ∈ bound.lowConditions column type, c.AdmitsBytes value.toBytes := by
  cases bound with
  | included low =>
      exact ⟨_, List.mem_singleton_self _, Operator.AdmitsAs.admitsBytes h (hagree low rfl) column⟩
  | excluded low =>
      exact ⟨_, List.mem_singleton_self _, Operator.AdmitsAs.admitsBytes h (hagree low rfl) column⟩
  | unbounded => exact absurd rfl hne

theorem Bound.exists_highConditions_admitsBytes {bound : Bound}
    (h : bound.AdmitsValueUpTo type value)
    (hagree : ∀ operand ∈ bound.value?, ∀ converted ∈ operand.convert? type,
      value.BytesAgree converted)
    (hne : bound.highConditions column type ≠ []) :
    ∃ c ∈ bound.highConditions column type, c.AdmitsBytes value.toBytes := by
  cases bound with
  | included high =>
      exact ⟨_, List.mem_singleton_self _, Operator.AdmitsAs.admitsBytes h (hagree high rfl) column⟩
  | excluded high =>
      exact ⟨_, List.mem_singleton_self _, Operator.AdmitsAs.admitsBytes h (hagree high rfl) column⟩
  | unbounded => exact absurd rfl hne

/-- Values that are the same have the same counterparts in a type, up to the two zeros. -/
private theorem Scalar.eq_or_doubles_of_same {low high : Scalar} (h : low.same high = true) :
    low = high ∨ ∃ x y : Double, low = .double x ∧ high = .double y ∧ x.numEq y = true := by
  cases low <;> cases high <;> simp_all [Scalar.same]

private theorem Scalar.convert?_double (x : Double) :
    (Scalar.double x).convert? type = some (.double x) := by
  rfl

private theorem Operator.AdmitsAs.congr {operator : Operator} {low high : Scalar}
    (hsame : low.same high = true) (h : operator.AdmitsAs type value high) :
    operator.AdmitsAs type value low := by
  rcases Scalar.eq_or_doubles_of_same hsame with rfl | ⟨x, y, rfl, rfl, heq⟩
  · exact h
  · obtain ⟨converted, hconverted, hadmits⟩ := h
    rw [Scalar.convert?_double, Option.mem_some_iff] at hconverted
    subst hconverted
    refine ⟨.double x, rfl, ?_⟩
    simp only [Double.numEq, Bool.and_eq_true, Bool.not_eq_true', beq_iff_eq] at heq
    cases operator <;> cases value <;>
      simp_all [Operator.admits, Scalar.same, Scalar.before, Double.numEq, Double.numLt]

private theorem Scalar.isSome_convert?_congr {low high : Scalar} (hsame : low.same high = true) :
    (low.convert? type).isSome = (high.convert? type).isSome := by
  rcases Scalar.eq_or_doubles_of_same hsame with rfl | ⟨x, y, rfl, rfl, _⟩
  · rfl
  · rw [Scalar.convert?_double, Scalar.convert?_double]
    rfl

/-! ### Ranges -/

namespace ValueRange

variable {range : ValueRange}

/-- A range of one value has that value for both its ends. -/
theorem eq_of_singleValue? {only : Scalar} (h : range.singleValue? = some only) :
    ∃ high, range = ⟨.included only, .included high⟩ ∧ only.same high = true := by
  obtain ⟨low, high⟩ := range
  cases low <;> cases high <;> simp [singleValue?] at h
  obtain ⟨hsame, rfl⟩ := h
  exact ⟨_, rfl, hsame⟩

/-- One of the conditions of a range admits the bytes of a value that lies in it. -/
theorem exists_admitsBytes (h : range.AdmitsValue type value)
    (hagree : ∀ bound ∈ range.bounds, ∀ converted ∈ bound.convert? type,
      value.BytesAgree converted)
    (hne : range.conditions column type ≠ []) :
    ∃ c ∈ range.conditions column type, c.AdmitsBytes value.toBytes := by
  obtain ⟨hlow, hhigh⟩ := h
  cases hsingle : range.singleValue? with
  | some only =>
      obtain ⟨high, rfl, hsame⟩ := eq_of_singleValue? hsingle
      obtain ⟨converted, hconverted, hge⟩ := hlow
      obtain ⟨other, hother, hle⟩ := Operator.AdmitsAs.congr hsame hhigh
      obtain rfl : converted = other := Option.some.inj (hconverted.symm.trans hother)
      have hbytes := hagree only (by simp [bounds, Bound.value?]) converted hconverted
      -- Bytes that are neither less nor greater are equal.
      have hequal : (Comparison.ofOperator .eq).holds value.toBytes converted.toBytes = true := by
        have hge' := (hbytes.holds_iff .ge).mpr hge
        have hle' := (hbytes.holds_iff .le).mpr hle
        simp only [Comparison.ofOperator, Comparison.holds, decide_eq_true_eq] at hge' hle' ⊢
        exact Std.le_antisymm hle' hge'
      rw [conditions, hsingle]
      exact ⟨_, List.mem_singleton_self _, converted, hconverted, hequal⟩
  | none =>
      rw [conditions_eq_append hsingle] at hne ⊢
      by_cases hopen : range.low.lowConditions column type = []
      · rw [hopen, List.nil_append] at hne ⊢
        refine Bound.exists_highConditions_admitsBytes hhigh ?_ hne
        intro operand hoperand
        exact hagree operand (List.mem_append_right _ (Option.mem_toList.mpr hoperand))
      · obtain ⟨c, hc, hadmits⟩ := Bound.exists_lowConditions_admitsBytes hlow
          (fun operand hoperand =>
            hagree operand (List.mem_append_left _ (Option.mem_toList.mpr hoperand))) hopen
        exact ⟨c, List.mem_append_left _ hc, hadmits⟩

/-- Where the values of all conditions of a range are of the type, so are its ends. -/
theorem isSome_convert?_of_conditions
    (h : ∀ c ∈ range.conditions column type, (c.value.convert? c.valueType).isSome = true) :
    ∀ bound ∈ range.bounds, (bound.convert? type).isSome = true := by
  cases hsingle : range.singleValue? with
  | some only =>
      obtain ⟨high, rfl, hsame⟩ := eq_of_singleValue? hsingle
      rw [conditions, hsingle] at h
      have honly := h _ (List.mem_singleton_self _)
      simpa [bounds, Bound.value?, ← Scalar.isSome_convert?_congr hsame] using honly
  | none =>
      rw [conditions_eq_append hsingle] at h
      obtain ⟨low, high⟩ := range
      cases low <;> cases high <;>
        simp_all [bounds, Bound.value?, Bound.lowConditions, Bound.highConditions]

/-- A key that lies in a range of texts meets all conditions of the range. -/
theorem forall_admitsKey_of_texts {key : Key} (h : range.AdmitsKey key)
    (htexts : ∀ bound ∈ range.bounds, ∃ text, bound = .varchar text) :
    ∀ c ∈ range.conditions column type, c.AdmitsKey key := by
  cases hsingle : range.singleValue? with
  | some only =>
      obtain ⟨high, rfl, hsame⟩ := eq_of_singleValue? hsingle
      have heq : only = high := by
        obtain ⟨text, rfl⟩ := htexts only (by simp [bounds, Bound.value?])
        rcases Scalar.eq_or_doubles_of_same hsame with heq | ⟨x, y, hx, _⟩
        · exact heq
        · simp at hx
      subst heq
      have hkey : key = only.key := Std.le_antisymm h.2 h.1
      rw [conditions, hsingle]
      simp [Condition.AdmitsKey, Comparison.ofOperator, Comparison.holds, hkey]
  | none => exact (forall_conditions_admitsKey_iff hsingle key).mpr h

end ValueRange

/-! ### Domains -/

namespace Domain

variable {domain : Domain}

/-- One of the conditions of a domain, if it has any, admits the bytes of a value that lies in it. -/
theorem exists_admitsBytes (h : domain.AdmitsValue value) (hascending : domain.Ascending)
    (hagree : domain.BytesAgree value) (hne : domain.conditions column ≠ []) :
    ∃ c ∈ domain.conditions column, c.AdmitsBytes value.toBytes := by
  obtain ⟨type, values⟩ := domain
  cases values with
  | single only =>
      exact ⟨_, List.mem_singleton_self _, Operator.AdmitsAs.admitsBytes h
        (hagree only (List.mem_singleton_self _)) column⟩
  | ranges ranges =>
      obtain ⟨range, hrange, hvalue⟩ := h
      have hconditions : range.conditions column type ≠ [] := by
        intro hnil
        obtain ⟨hlow, hhigh⟩ := ValueRange.unbounded_of_conditions_eq_nil hnil
        have honly := (hascending ranges rfl).eq_singleton hrange hlow hhigh
        simp [conditions, honly, hnil] at hne
      obtain ⟨c, hc, hadmits⟩ := ValueRange.exists_admitsBytes hvalue
        (fun bound hbound => hagree bound (List.mem_flatMap.mpr ⟨range, hrange, hbound⟩))
        hconditions
      exact ⟨c, List.mem_flatMap.mpr ⟨range, hrange, hc⟩, hadmits⟩

/-- Where the values of all conditions of a domain are of its type, so are all values that it
names. -/
theorem converts_of_conditions
    (h : ∀ c ∈ domain.conditions column, (c.value.convert? c.valueType).isSome = true) :
    domain.Converts := by
  obtain ⟨type, values⟩ := domain
  cases values with
  | single only => simpa [Converts, bounds, conditions] using h
  | ranges ranges =>
      intro bound hbound
      obtain ⟨range, hrange, hbound⟩ := List.mem_flatMap.mp hbound
      exact ValueRange.isSome_convert?_of_conditions
        (fun c hc => h c (List.mem_flatMap.mpr ⟨range, hrange, hc⟩)) bound hbound

end Domain

end KeyScan
