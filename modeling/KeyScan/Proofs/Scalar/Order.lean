import KeyScan.Filter.Basic
import Mathlib.Algebra.Order.Group.Nat

/-! # Values in order and bytes in order

A store compares cells byte by byte. Texts are ordered like their bytes, whole numbers only among those
of one sign: in two's complement the negative numbers come last. -/

namespace KeyScan

theorem Key.ofText_inj {x y : String} : Key.ofText x = Key.ofText y ↔ x = y := by
  rw [ofText, ofText, Array.toList_inj, ← ByteArray.ext_iff, String.toByteArray_inj]

namespace Scalar

/-! ### The order of values -/

/-- The value comes before the other in the order of their type. Texts are ordered by their UTF-8
bytes; values of different types are in no order. -/
def before : Scalar → Scalar → Bool
  | varchar x, varchar y => Key.ofText x < Key.ofText y
  | integer x, integer y => x.toInt < y.toInt
  | bigint x, bigint y => x.toInt < y.toInt
  | double x, double y => x.numLt y
  | boolean x, boolean y => !x && y
  | timestamp x, timestamp y => x.toInt < y.toInt
  | _, _ => false

/-- The bytes of two values stand to each other as the values do. -/
structure BytesAgree (x y : Scalar) : Prop where
  before_iff : x.toBytes < y.toBytes ↔ x.before y = true
  after_iff : y.toBytes < x.toBytes ↔ y.before x = true
  same_iff : x.toBytes = y.toBytes ↔ x.same y = true

end Scalar

/-- The value stands to the operand as the operator says. -/
def Operator.admits (operator : Operator) (value operand : Scalar) : Bool :=
  match operator with
  | eq => value.same operand
  | gt => operand.before value
  | ge => operand.before value || value.same operand
  | lt => value.before operand
  | le => value.before operand || value.same operand

namespace Scalar

/-- Where bytes are ordered like values, so are their comparisons. -/
theorem BytesAgree.holds_iff {x y : Scalar} (h : x.BytesAgree y) (operator : Operator) :
    (Comparison.ofOperator operator).holds x.toBytes y.toBytes = true ↔
      operator.admits x y = true := by
  have hbefore := h.before_iff
  have hafter := h.after_iff
  have hsame := h.same_iff
  cases operator <;>
    simp only [Comparison.ofOperator, Comparison.holds, Operator.admits, decide_eq_true_eq,
      Bool.or_eq_true, ← hbefore, ← hafter, ← hsame]
  · grind
  · grind

/-! ### Whole numbers -/

private theorem add_mul_lt_iff {size a b x y : Nat} (ha : a < size) (hb : b < size) :
    a + size * x < b + size * y ↔ x < y ∨ x = y ∧ a < b := by
  rcases Nat.lt_trichotomy x y with hlt | rfl | hgt
  · have hstep : size * x + size ≤ size * y := Nat.mul_le_mul_left size hlt
    omega
  · omega
  · have hstep : size * y + size ≤ size * x := Nat.mul_le_mul_left size hgt
    omega

/-- Numbers of so many bytes are ordered like their bytes, the highest first. -/
theorem bigEndian_lt_iff (count m n : Nat) :
    bigEndian count m < bigEndian count n ↔ m % 256 ^ count < n % 256 ^ count := by
  induction count with
  | zero => simp [bigEndian, Nat.mod_one]
  | succ count ih =>
      have hsize : 0 < 256 ^ count := Nat.pow_pos (by decide)
      rw [Nat.mod_pow_succ, Nat.mod_pow_succ,
        add_mul_lt_iff (Nat.mod_lt m hsize) (Nat.mod_lt n hsize), ← ih, bigEndian, bigEndian,
        List.cons_lt_cons_iff, UInt8.lt_iff_toNat_lt, ← UInt8.toNat_inj]
      simp

/-- The number of a value of a type whose values are whole numbers. -/
def wholeIn? : ColumnType → Scalar → Option Int
  | .integer, integer value => some value.toInt
  | .bigint, bigint value => some value.toInt
  | .timestamp, timestamp value => some value.toInt
  | _, _ => none

variable {type : ColumnType} {x y : Scalar} {m n : Int}

theorem convert?_of_whole (hx : x.wholeIn? type = some m) : x.convert? type = some x := by
  cases type <;> cases x <;> simp_all [wholeIn?, convert?]

theorem before_iff_of_whole (hx : x.wholeIn? type = some m) (hy : y.wholeIn? type = some n) :
    x.before y = true ↔ m < n := by
  cases type <;> cases x <;> cases y <;> simp_all [wholeIn?, before]

theorem same_iff_of_whole (hx : x.wholeIn? type = some m) (hy : y.wholeIn? type = some n) :
    x.same y = true ↔ m = n := by
  cases type <;> cases x <;> cases y <;>
    simp_all [wholeIn?, same, ← Int32.toInt_inj, ← Int64.toInt_inj]

/-- The number of bytes of a whole number in a cell. -/
def wholeWidth : ColumnType → Nat
  | .integer => 4
  | _ => 8

/-- Two's complement: a number from zero on as itself, one below zero as `2 ^ bits` more. -/
private theorem toNat_eq_of_toInt {bits : Nat} (x : BitVec bits) :
    (x.toNat : Int) = (if x.toInt < 0 then x.toInt + (2 ^ bits : Nat) else x.toInt) ∧
      -((2 ^ bits : Nat) : Int) ≤ 2 * x.toInt ∧ 2 * x.toInt < (2 ^ bits : Nat) := by
  have hlt := x.isLt
  rw [BitVec.toInt_eq_toNat_cond]
  split <;> omega

/-- A whole number is kept as a natural number: from zero on as itself, below zero as one past all of
those. -/
theorem toBytes_of_whole (hx : x.wholeIn? type = some m) :
    ∃ natural < 256 ^ wholeWidth type, x.toBytes = bigEndian (wholeWidth type) natural ∧
      (natural : Int) = (if m < 0 then m + (256 ^ wholeWidth type : Nat) else m) ∧
      -((256 ^ wholeWidth type : Nat) : Int) ≤ 2 * m ∧ 2 * m < (256 ^ wholeWidth type : Nat) := by
  cases type <;> cases x <;> simp only [wholeIn?, Option.some.injEq, reduceCtorEq] at hx <;>
    subst hx
  case integer.integer value =>
    exact ⟨_, value.toUInt32.toNat_lt, rfl, toNat_eq_of_toInt value.toBitVec⟩
  case bigint.bigint value =>
    exact ⟨_, value.toUInt64.toNat_lt, rfl, toNat_eq_of_toInt value.toBitVec⟩
  case timestamp.timestamp value =>
    exact ⟨_, value.toUInt64.toNat_lt, rfl, toNat_eq_of_toInt value.toBitVec⟩

/-- Whole numbers of one sign are ordered like their bytes; the bytes of negative numbers come after
all others. -/
theorem toBytes_lt_iff_of_whole (hx : x.wholeIn? type = some m) (hy : y.wholeIn? type = some n) :
    x.toBytes < y.toBytes ↔ if m < 0 ↔ n < 0 then m < n else n < 0 := by
  obtain ⟨a, ha, hxbytes, hm, hmlow, hmhigh⟩ := toBytes_of_whole hx
  obtain ⟨b, hb, hybytes, hn, hnlow, hnhigh⟩ := toBytes_of_whole hy
  rw [hxbytes, hybytes, bigEndian_lt_iff, Nat.mod_eq_of_lt ha, Nat.mod_eq_of_lt hb]
  generalize 256 ^ wholeWidth type = size at *
  split <;> omega

theorem toBytes_inj_of_whole (hx : x.wholeIn? type = some m) (hy : y.wholeIn? type = some n) :
    x.toBytes = y.toBytes ↔ m = n := by
  have hlt := toBytes_lt_iff_of_whole hx hy
  have hgt := toBytes_lt_iff_of_whole hy hx
  have heq : x.toBytes = y.toBytes ↔ ¬ x.toBytes < y.toBytes ∧ ¬ y.toBytes < x.toBytes := by grind
  rw [heq, hlt, hgt]
  split <;> split <;> omega

/-- Bytes are ordered like whole numbers exactly among those of one sign. -/
theorem bytesAgree_iff_of_whole (hx : x.wholeIn? type = some m) (hy : y.wholeIn? type = some n) :
    x.BytesAgree y ↔ (m < 0 ↔ n < 0) := by
  have hlt := toBytes_lt_iff_of_whole hx hy
  have hgt := toBytes_lt_iff_of_whole hy hx
  have hbefore := before_iff_of_whole hx hy
  have hafter := before_iff_of_whole hy hx
  constructor
  · intro hagree
    have hsame := hagree.before_iff
    by_contra hsign
    rw [hlt, hbefore, if_neg hsign] at hsame
    omega
  · intro hsign
    rw [if_pos hsign] at hlt
    rw [if_pos hsign.symm] at hgt
    exact ⟨hlt.trans hbefore.symm, hgt.trans hafter.symm,
      (toBytes_inj_of_whole hx hy).trans (same_iff_of_whole hx hy).symm⟩

/-- A comparison that holds of whole numbers holds of their bytes only if they are of one sign. -/
theorem holds_iff_of_whole (hx : x.wholeIn? type = some m) (hy : y.wholeIn? type = some n)
    {operator : Operator} (h : operator.admits x y = true) :
    (Comparison.ofOperator operator).holds x.toBytes y.toBytes = true ↔ (m < 0 ↔ n < 0) := by
  by_cases hsign : m < 0 ↔ n < 0
  · have hagree := (bytesAgree_iff_of_whole hx hy).mpr hsign
    exact iff_of_true ((hagree.holds_iff operator).mpr h) hsign
  · refine iff_of_false ?_ hsign
    have hlt := toBytes_lt_iff_of_whole hx hy
    have hgt := toBytes_lt_iff_of_whole hy hx
    have hbefore := before_iff_of_whole hx hy
    have hafter := before_iff_of_whole hy hx
    have hsame := same_iff_of_whole hx hy
    rw [if_neg hsign] at hlt
    rw [if_neg fun hsign' => hsign hsign'.symm] at hgt
    -- One number is negative and less than the other, but its bytes are greater.
    cases operator <;>
      simp only [Operator.admits, Bool.or_eq_true, hbefore, hafter, hsame] at h <;>
      simp only [Comparison.ofOperator, Comparison.holds, decide_eq_true_eq, hlt, hgt,
        ← List.not_lt] <;>
      omega

/-! ### Texts -/

theorem bytesAgree_varchar (x y : String) : (varchar x).BytesAgree (varchar y) where
  before_iff := by simp [toBytes, before]
  after_iff := by simp [toBytes, before]
  same_iff := by simp [toBytes, same, Key.ofText_inj]

end Scalar

end KeyScan
