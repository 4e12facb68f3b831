import KeyScan.Condition
import KeyScan.Proofs.Text.Cutting
import KeyScan.Proofs.Text.Integer
import Mathlib.Algebra.Group.Int.Defs

/-! # Conversion of values

A value that has been converted is of the type that it was converted to, so converting it again changes
nothing. Texts are converted to whole numbers as the numerals that they are between blanks, and the text
of a whole number is converted back to it. -/

namespace KeyScan

/-! ### Numerals between blanks -/

namespace Text

/-- What the text holds between its blanks is a numeral of the number. -/
def Denotes (text : String) (n : Int) : Prop :=
  ∃ core, Trims text.toList core ∧ Numeral core n

theorem isBlank_of_isDigit {c : Char} (h : c.isDigit = true) : isBlank c = false := by
  have hrange : 48 ≤ c.toNat ∧ c.toNat ≤ 57 := Char.isDigit_iff_toNat.mp h
  simp [isBlank]
  omega

/-- There is no blank in a numeral. -/
theorem Numeral.isBlank {cs : List Char} {n : Int} (h : Numeral cs n) :
    ∀ c ∈ cs, Text.isBlank c = false := by
  have hdigits : ∀ {cs : List Char} {n : Nat}, Digits cs n → ∀ c ∈ cs, Text.isBlank c = false :=
    fun h c hc => isBlank_of_isDigit (h.isDigit c hc)
  cases h with
  | unsigned h => exact hdigits h
  | positive h => exact List.forall_mem_cons.mpr ⟨rfl, hdigits h⟩
  | negative h => exact List.forall_mem_cons.mpr ⟨rfl, hdigits h⟩

theorem denotes_ofInteger (n : Int) : Denotes (ofInteger n) n := by
  have hnumeral := numeral_integerChars n
  refine ⟨integerChars n, ?_, hnumeral⟩
  rw [ofInteger, String.toList_ofList]
  exact ⟨⟨[], [], by simp, by simp, by simp⟩,
    fun c hc => hnumeral.isBlank c (List.mem_of_mem_head? hc),
    fun c hc => hnumeral.isBlank c (List.mem_of_mem_getLast? hc)⟩

end Text

namespace Scalar

theorem wholeNumber?_eq_some_iff {text : String} {n : Int} :
    wholeNumber? text = some n ↔ Text.Denotes text n := by
  rw [wholeNumber?, Text.integer?_eq_some_iff]
  constructor
  · intro h
    exact ⟨_, Text.trims_trimChars text.toList, h⟩
  · rintro ⟨core, htrims, hnumeral⟩
    rwa [Text.trimChars_eq_iff.mpr htrims]

/-! ### Whole numbers that fit -/

theorem int32?_eq_some_iff {n : Int} {value : Int32} :
    int32? n = some value ↔ -2 ^ 31 ≤ n ∧ n < 2 ^ 31 ∧ value.toInt = n := by
  have hmin : Int32.minValue.toInt = -2 ^ 31 := by decide
  have hmax : Int32.maxValue.toInt = 2 ^ 31 - 1 := by decide
  rw [int32?, hmin, hmax, Option.ite_none_right_eq_some, Option.some.injEq, Int.le_sub_one_iff,
    and_assoc]
  refine and_congr_right fun hlow => and_congr_right fun hhigh => ?_
  rw [← Int32.toInt_inj, Int32.toInt_ofInt_of_le hlow hhigh, eq_comm]

theorem int64?_eq_some_iff {n : Int} {value : Int64} :
    int64? n = some value ↔ -2 ^ 63 ≤ n ∧ n < 2 ^ 63 ∧ value.toInt = n := by
  have hmin : Int64.minValue.toInt = -2 ^ 63 := by decide
  have hmax : Int64.maxValue.toInt = 2 ^ 63 - 1 := by decide
  rw [int64?, hmin, hmax, Option.ite_none_right_eq_some, Option.some.injEq, Int.le_sub_one_iff,
    and_assoc]
  refine and_congr_right fun hlow => and_congr_right fun hhigh => ?_
  rw [← Int64.toInt_inj, Int64.toInt_ofInt_of_le hlow hhigh, eq_comm]

theorem int32?_toInt (value : Int32) : int32? value.toInt = some value :=
  int32?_eq_some_iff.mpr ⟨value.le_toInt, value.toInt_lt, rfl⟩

theorem int64?_toInt (value : Int64) : int64? value.toInt = some value :=
  int64?_eq_some_iff.mpr ⟨value.le_toInt, value.toInt_lt, rfl⟩

/-! ### Conversion -/

variable {value converted : Scalar} {target : ColumnType} {column : String}

theorem coerce_eq_ok_iff :
    value.coerce column target = .ok converted ↔ value.convert? target = some converted := by
  rw [coerce]
  cases value.convert? target <;> simp

/-- A conversion leaves a value as it is or makes a number of it, of the type that is asked for. -/
theorem convert?_cases (h : value.convert? target = some converted) :
    converted = value ∨ (target = .integer ∧ ∃ n, converted = integer n) ∨
      (target = .bigint ∧ ∃ n, converted = bigint n) ∨ target = .double ∧ ∃ x, converted = double x := by
  cases value with
  | varchar text =>
      cases target with
      | integer =>
          obtain ⟨n, _, rfl⟩ := Option.map_eq_some_iff.mp h
          exact Or.inr (Or.inl ⟨rfl, n, rfl⟩)
      | bigint =>
          obtain ⟨n, _, rfl⟩ := Option.map_eq_some_iff.mp h
          exact Or.inr (Or.inr (Or.inl ⟨rfl, n, rfl⟩))
      | double =>
          obtain ⟨x, _, rfl⟩ := Option.map_eq_some_iff.mp h
          exact Or.inr (Or.inr (Or.inr ⟨rfl, x, rfl⟩))
      | _ => exact Or.inl (Option.some.inj h).symm
  | integer n =>
      cases target with
      | bigint => exact Or.inr (Or.inr (Or.inl ⟨rfl, _, (Option.some.inj h).symm⟩))
      | double => exact Or.inr (Or.inr (Or.inr ⟨rfl, _, (Option.some.inj h).symm⟩))
      | _ => exact Or.inl (Option.some.inj h).symm
  | bigint n =>
      cases target with
      | integer =>
          obtain ⟨m, _, rfl⟩ := Option.map_eq_some_iff.mp h
          exact Or.inr (Or.inl ⟨rfl, m, rfl⟩)
      | double => exact Or.inr (Or.inr (Or.inr ⟨rfl, _, (Option.some.inj h).symm⟩))
      | _ => exact Or.inl (Option.some.inj h).symm
  | _ => exact Or.inl (Option.some.inj h).symm

/-- A value that has been converted is converted to itself. -/
theorem convert?_of_convert? (h : value.convert? target = some converted) :
    converted.convert? target = some converted := by
  rcases convert?_cases h with rfl | ⟨rfl, _, rfl⟩ | ⟨rfl, _, rfl⟩ | ⟨rfl, _, rfl⟩
  · exact h
  · rfl
  · rfl
  · rfl

theorem coerce_of_coerce {other : String} (h : value.coerce column target = .ok converted) :
    converted.coerce other target = .ok converted :=
  coerce_eq_ok_iff.mpr (convert?_of_convert? (coerce_eq_ok_iff.mp h))

/-- A text is converted to the number that it denotes, where that fits. -/
theorem map_bind_wholeNumber?_eq_some_iff {α : Type} {text : String} {fits : Int → Option α}
    {wrap : α → Scalar} :
    ((wholeNumber? text).bind fits).map wrap = some converted ↔
      ∃ n x, Text.Denotes text n ∧ fits n = some x ∧ converted = wrap x := by
  simp only [Option.map_eq_some_iff, Option.bind_eq_some_iff, wholeNumber?_eq_some_iff]
  constructor
  · rintro ⟨x, ⟨n, hdenotes, hfits⟩, rfl⟩
    exact ⟨n, x, hdenotes, hfits, rfl⟩
  · rintro ⟨n, x, hdenotes, hfits, rfl⟩
    exact ⟨x, ⟨n, hdenotes, hfits⟩, rfl⟩

theorem coerce_text_integer_iff {text : String} :
    (varchar text).coerce column .integer = .ok converted ↔
      ∃ (n : Int) (x : Int32), Text.Denotes text n ∧ (-2 ^ 31 ≤ n ∧ n < 2 ^ 31 ∧ x.toInt = n) ∧
        converted = integer x := by
  rw [coerce_eq_ok_iff, convert?, map_bind_wholeNumber?_eq_some_iff]
  simp only [int32?_eq_some_iff]

theorem coerce_text_bigint_iff {text : String} :
    (varchar text).coerce column .bigint = .ok converted ↔
      ∃ (n : Int) (x : Int64), Text.Denotes text n ∧ (-2 ^ 63 ≤ n ∧ n < 2 ^ 63 ∧ x.toInt = n) ∧
        converted = bigint x := by
  rw [coerce_eq_ok_iff, convert?, map_bind_wholeNumber?_eq_some_iff]
  simp only [int64?_eq_some_iff]

theorem coerce_text_of_integer (value : Int32) :
    (varchar (integer value).text).coerce column .integer = .ok (integer value) :=
  coerce_text_integer_iff.mpr
    ⟨_, value, Text.denotes_ofInteger _, ⟨value.le_toInt, value.toInt_lt, rfl⟩, rfl⟩

theorem coerce_text_of_bigint (value : Int64) :
    (varchar (bigint value).text).coerce column .bigint = .ok (bigint value) :=
  coerce_text_bigint_iff.mpr
    ⟨_, value, Text.denotes_ofInteger _, ⟨value.le_toInt, value.toInt_lt, rfl⟩, rfl⟩

theorem coerce_bigint_integer_iff {value : Int64} :
    (bigint value).coerce column .integer = .ok converted ↔
      -2 ^ 31 ≤ value.toInt ∧ value.toInt < 2 ^ 31 ∧
        ∃ x : Int32, x.toInt = value.toInt ∧ converted = integer x := by
  rw [coerce_eq_ok_iff, convert?, Option.map_eq_some_iff]
  simp only [int32?_eq_some_iff]
  constructor
  · rintro ⟨x, ⟨hlow, hhigh, hx⟩, rfl⟩
    exact ⟨hlow, hhigh, x, hx, rfl⟩
  · rintro ⟨hlow, hhigh, x, hx, rfl⟩
    exact ⟨x, ⟨hlow, hhigh, hx⟩, rfl⟩

end Scalar

/-- A condition in the declared type of its column is in that type. -/
theorem Condition.coerced_of_coerced {c converted : Condition} (h : c.coerced = .ok converted) :
    converted.coerced = .ok converted := by
  rw [coerced] at h
  cases hvalue : c.value.coerce c.column c.valueType with
  | error failure => simp [hvalue, Except.map] at h
  | ok value =>
      obtain rfl : { c with value } = converted := by simpa [hvalue, Except.map] using h
      have hagain : value.coerce c.column c.valueType = .ok value := Scalar.coerce_of_coerce hvalue
      rw [coerced, hagain]
      rfl

namespace Scalar

/-- Converting to the same type a second time, for whatever column, changes nothing, in a value or in a
condition. A text becomes a whole number exactly if, between blanks, it is a numeral of a number in the
range of the type, and it becomes that number, so the text of a whole number becomes the number again. A
bigint becomes an integer exactly if it is in range, and its text stays the same. -/
theorem coerce_idempotent_and_inverse (column other : String) :
    (∀ (value : Scalar) (target : ColumnType) (converted : Scalar),
      value.coerce column target = .ok converted → converted.coerce other target = .ok converted) ∧
    (∀ c converted : Condition, c.coerced = .ok converted → converted.coerced = .ok converted) ∧
    (∀ (text : String) (converted : Scalar),
      (varchar text).coerce column .integer = .ok converted ↔
        ∃ (n : Int) (x : Int32), Text.Denotes text n ∧ (-2 ^ 31 ≤ n ∧ n < 2 ^ 31 ∧ x.toInt = n) ∧
          converted = integer x) ∧
    (∀ (text : String) (converted : Scalar),
      (varchar text).coerce column .bigint = .ok converted ↔
        ∃ (n : Int) (x : Int64), Text.Denotes text n ∧ (-2 ^ 63 ≤ n ∧ n < 2 ^ 63 ∧ x.toInt = n) ∧
          converted = bigint x) ∧
    (∀ value : Int32, (varchar (integer value).text).coerce column .integer = .ok (integer value)) ∧
    (∀ value : Int64, (varchar (bigint value).text).coerce column .bigint = .ok (bigint value)) ∧
    ∀ value : Int64,
      ((∃ converted, (bigint value).coerce column .integer = .ok converted) ↔
        -2 ^ 31 ≤ value.toInt ∧ value.toInt < 2 ^ 31) ∧
      ∀ converted, (bigint value).coerce column .integer = .ok converted →
        (∃ x : Int32, x.toInt = value.toInt ∧ converted = integer x) ∧
          converted.text = (bigint value).text := by
  refine ⟨fun _ _ _ => coerce_of_coerce, fun _ _ => Condition.coerced_of_coerced,
    fun _ _ => coerce_text_integer_iff, fun _ _ => coerce_text_bigint_iff, coerce_text_of_integer,
    coerce_text_of_bigint, fun value => ⟨⟨?_, ?_⟩, ?_⟩⟩
  · rintro ⟨converted, h⟩
    obtain ⟨hlow, hhigh, _⟩ := coerce_bigint_integer_iff.mp h
    exact ⟨hlow, hhigh⟩
  · rintro ⟨hlow, hhigh⟩
    have hvalue := Int32.toInt_ofInt_of_le hlow hhigh
    exact ⟨_, coerce_bigint_integer_iff.mpr ⟨hlow, hhigh, _, hvalue, rfl⟩⟩
  · intro converted h
    obtain ⟨_, _, x, hx, rfl⟩ := coerce_bigint_integer_iff.mp h
    exact ⟨⟨x, hx, rfl⟩, by rw [text, text, hx]⟩

/-- A sign and leading zeros are read, the largest bigint is, and the first number past the integers is
too large for one. -/
theorem coerce_idempotent_and_inverse_limits :
    (varchar " +007\n").coerce "n" .integer = .ok (integer 7) ∧
      (integer 7).coerce "m" .integer = .ok (integer 7) ∧ Text.Denotes " +007\n" 7 ∧
      (varchar "9223372036854775807").coerce "n" .bigint = .ok (bigint 9223372036854775807) ∧
      ¬∃ converted, (bigint 2147483648).coerce "n" .integer = .ok converted := by
  obtain ⟨hagain, _, hinteger, _, _, hbigint, hnarrow⟩ := coerce_idempotent_and_inverse "n" "m"
  have hseven : (varchar " +007\n").coerce "n" .integer = .ok (integer 7) := rfl
  refine ⟨hseven, hagain _ _ _ hseven, ?_, hbigint 9223372036854775807, ?_⟩
  · obtain ⟨n, x, hdenotes, ⟨_, _, rfl⟩, hx⟩ := (hinteger _ _).mp hseven
    rwa [← Scalar.integer.inj hx] at hdenotes
  · rw [(hnarrow _).1]
    decide

end Scalar

end KeyScan
