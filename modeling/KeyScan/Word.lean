/-!
Machine words of 64 bits, as natural numbers. A step that a machine cannot take, such as a division by
zero or a sum past the last word, leaves no result.
-/

namespace KeyScan.Word

/-- The last word. -/
def last : Nat := UInt64.size - 1

/-- The number, if a word holds it. -/
def ofNat? (n : Nat) : Option Nat :=
  if n < UInt64.size then some n else none

/-- The number of elements, if a word holds it. -/
def length? {α : Type} (xs : List α) : Option Nat :=
  ofNat? xs.length

def add? (a b : Nat) : Option Nat :=
  ofNat? (a + b)

def mul? (a b : Nat) : Option Nat :=
  ofNat? (a * b)

/-- The product, or the last word where it lies past it. -/
def saturatingMul (a b : Nat) : Nat :=
  min (a * b) last

def sub? (a b : Nat) : Option Nat :=
  if b ≤ a then some (a - b) else none

def div? (a b : Nat) : Option Nat :=
  if b = 0 then none else some (a / b)

def mod? (a b : Nat) : Option Nat :=
  if b = 0 then none else some (a % b)

/-- The quotient rounded up. -/
def divCeil? (a b : Nat) : Option Nat := do
  let whole ← div? a b
  let rest ← mod? a b
  if rest = 0 then some whole else add? whole 1

/-- The number moved between two limits, of which the first must not be past the second. -/
def clamp? (n least most : Nat) : Option Nat :=
  if least ≤ most then some (min (max n least) most) else none

/-- The next byte. -/
def nextByte? (byte : UInt8) : Option UInt8 :=
  if byte.toNat + 1 < UInt8.size then some (byte + 1) else none

variable {a b c d n least most : Nat}

/-! ### Steps that a machine can take -/

theorem lt_size_iff : n < UInt64.size ↔ n ≤ last := by
  change n < 18446744073709551616 ↔ n ≤ 18446744073709551615
  omega

theorem lt_size_of_lt_last (h : n < last) : n < UInt64.size :=
  lt_size_iff.mpr (Nat.le_of_lt h)

theorem length?_eq {α : Type} {xs : List α} (h : xs.length < UInt64.size) :
    length? xs = some xs.length :=
  if_pos h

theorem add?_eq (h : a + b < UInt64.size) : add? a b = some (a + b) :=
  if_pos h

theorem mul?_eq (h : a * b < UInt64.size) : mul? a b = some (a * b) :=
  if_pos h

theorem sub?_eq (h : b ≤ a) : sub? a b = some (a - b) :=
  if_pos h

theorem div?_eq (h : b ≠ 0) : div? a b = some (a / b) :=
  if_neg h

theorem mod?_eq (h : b ≠ 0) : mod? a b = some (a % b) :=
  if_neg h

theorem clamp?_eq (h : least ≤ most) : clamp? n least most = some (min (max n least) most) :=
  if_pos h

theorem nextByte?_eq {byte : UInt8} (h : byte < 255) : nextByte? byte = some (byte + 1) := by
  have hlt : byte.toNat < 255 := UInt8.lt_iff_toNat_lt.mp h
  apply if_pos
  change byte.toNat + 1 < 256
  omega

/-- A divisor of two or more leaves room for twice the quotient beside the rest. -/
theorem two_mul_div_add_mod_le (a : Nat) (h : 2 ≤ b) : 2 * (a / b) + a % b ≤ a := by
  have hdivision : b * (a / b) + a % b = a := Nat.div_add_mod a b
  have hle : 2 * (a / b) ≤ b * (a / b) := Nat.mul_le_mul_right _ h
  omega

/-- Rounding up does not leave the words: only a divisor of two or more adds one. -/
theorem divCeil?_eq (ha : a < UInt64.size) (hb : b ≠ 0) :
    divCeil? a b = some ((a + b - 1) / b) := by
  have hdivision : b * (a / b) + a % b = a := Nat.div_add_mod a b
  have hrest : a % b < b := Nat.mod_lt a (Nat.pos_of_ne_zero hb)
  simp only [divCeil?, div?_eq hb, mod?_eq hb, Option.bind_eq_bind, Option.bind_some]
  split
  · rename_i hzero
    congr 1
    symm
    rw [Nat.div_eq_iff (Nat.pos_of_ne_zero hb)]
    grind
  · rename_i hzero
    have hfits : a / b + 1 < UInt64.size := by
      have hhalf := two_mul_div_add_mod_le a (show 2 ≤ b by omega)
      omega
    rw [add?_eq hfits]
    congr 1
    symm
    rw [Nat.div_eq_iff (Nat.pos_of_ne_zero hb)]
    grind

/-! ### Saturating products -/

theorem lt_saturatingMul_iff : n < saturatingMul a b ↔ n < a * b ∧ n < last :=
  Nat.lt_min

/-- A saturating product within a limit is the product: always below the last word, and at it where a
word holds the product. -/
theorem mul_le_and_lt_of_saturatingMul_le (h : saturatingMul a b ≤ n)
    (hfits : n < last ∨ a * b < UInt64.size) : a * b ≤ n ∧ a * b < UInt64.size := by
  simp only [lt_size_iff, saturatingMul] at *
  omega

theorem saturatingMul_le_saturatingMul (h : a ≤ c) (h' : b ≤ d) :
    saturatingMul a b ≤ saturatingMul c d := by
  have hproduct : a * b ≤ c * d := Nat.mul_le_mul h h'
  simp only [saturatingMul]
  omega

end KeyScan.Word
