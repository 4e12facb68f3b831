import KeyScan.Text.Integer
import Mathlib.Data.List.Induction

/-! # Whole numbers in decimal

Reading accepts the numerals, a sign or none and at least one digit, as the numbers that they denote.
Every whole number is written as a numeral of its own, so it is read back. -/

namespace KeyScan.Text

/-- One or more ASCII digits and the number that they denote. -/
inductive Digits : List Char → Nat → Prop
  | one {c : Char} (hc : c.isDigit = true) : Digits [c] (c.toNat - '0'.toNat)
  | snoc {cs : List Char} {n : Nat} {c : Char} (h : Digits cs n) (hc : c.isDigit = true) :
      Digits (cs ++ [c]) (10 * n + (c.toNat - '0'.toNat))

/-- Digits after an optional sign, and the number that they denote. -/
inductive Numeral : List Char → Int → Prop
  | unsigned {cs : List Char} {n : Nat} (h : Digits cs n) : Numeral cs n
  | positive {cs : List Char} {n : Nat} (h : Digits cs n) : Numeral ('+' :: cs) n
  | negative {cs : List Char} {n : Nat} (h : Digits cs n) : Numeral ('-' :: cs) (-n)

variable {cs : List Char}

/-! ### Reading -/

theorem Digits.ne_nil {n : Nat} (h : Digits cs n) : cs ≠ [] := by
  cases h <;> simp

theorem Digits.isDigit {n : Nat} (h : Digits cs n) : ∀ c ∈ cs, c.isDigit = true := by
  induction h with
  | one hc => simpa using hc
  | snoc _ hc ih =>
      intro c hmem
      rcases List.mem_append.mp hmem with hfront | hlast
      · exact ih c hfront
      · rwa [List.mem_singleton.mp hlast]

theorem digitsValue_append_singleton (acc : Nat) (cs : List Char) (c : Char) :
    digitsValue acc (cs ++ [c]) =
      (digitsValue acc cs).bind fun n =>
        if c.isDigit then some (10 * n + (c.toNat - 48)) else none := by
  induction cs generalizing acc with
  | nil => rfl
  | cons first rest ih =>
      rw [List.cons_append, digitsValue, digitsValue]
      split
      · exact ih _
      · rfl

theorem natural?_of_ne_nil (h : cs ≠ []) : natural? cs = digitsValue 0 cs := by
  cases cs with
  | nil => exact absurd rfl h
  | cons first rest => rfl

theorem natural?_of_digits {n : Nat} (h : Digits cs n) : natural? cs = some n := by
  induction h with
  | one hc => simp [natural?, digitsValue, hc]
  | @snoc cs n c h hc ih =>
      rw [natural?_of_ne_nil h.ne_nil] at ih
      rw [natural?_of_ne_nil (by simp), digitsValue_append_singleton, ih, Option.bind_some, if_pos hc]
      rfl

theorem digits_of_natural? {n : Nat} (h : natural? cs = some n) : Digits cs n := by
  induction cs using List.reverseRecOn generalizing n with
  | nil => simp [natural?] at h
  | append_singleton cs c ih =>
      rw [natural?_of_ne_nil (by simp), digitsValue_append_singleton, Option.bind_eq_some_iff] at h
      obtain ⟨m, hm, h⟩ := h
      obtain ⟨hc, h⟩ := Option.ite_none_right_eq_some.mp h
      cases cs with
      | nil =>
          obtain rfl : 0 = m := Option.some.inj hm
          obtain rfl := Option.some.inj h
          simpa using Digits.one hc
      | cons first rest =>
          obtain rfl := Option.some.inj h
          exact .snoc (ih hm) hc

theorem natural?_eq_some_iff {n : Nat} : natural? cs = some n ↔ Digits cs n :=
  ⟨digits_of_natural?, natural?_of_digits⟩

/-- No sign is a digit. -/
theorem integer?_of_digits {n : Nat} (h : Digits cs n) :
    integer? cs = (natural? cs).map Int.ofNat := by
  have hfirst : ∀ c rest, cs = c :: rest → c.isDigit = true :=
    fun c rest hcs => h.isDigit c (hcs ▸ List.mem_cons_self)
  unfold integer?
  split
  · exact absurd (hfirst _ _ rfl) (by decide)
  · exact absurd (hfirst _ _ rfl) (by decide)
  · rfl

theorem integer?_eq_some_iff {n : Int} : integer? cs = some n ↔ Numeral cs n := by
  constructor
  · intro h
    unfold integer? at h
    split at h
    · simp only [Option.bind_eq_bind, Option.pure_def, Option.map_eq_some_iff,
        Option.bind_eq_some_iff, Option.some.injEq] at h
      obtain ⟨_, ⟨m, hm, rfl⟩, rfl⟩ := h
      exact .negative (natural?_eq_some_iff.mp hm)
    · obtain ⟨m, hm, rfl⟩ := Option.map_eq_some_iff.mp h
      exact .positive (natural?_eq_some_iff.mp hm)
    · obtain ⟨m, hm, rfl⟩ := Option.map_eq_some_iff.mp h
      exact .unsigned (natural?_eq_some_iff.mp hm)
  · intro h
    cases h with
    | unsigned h => rw [integer?_of_digits h, natural?_of_digits h, Option.map_some, Int.ofNat_eq_natCast]
    | positive h => rw [integer?, natural?_of_digits h, Option.map_some, Int.ofNat_eq_natCast]
    | negative h =>
        rw [integer?, natural?_of_digits h]
        rfl

/-! ### Writing -/

theorem isDigit_digitChar {d : Nat} (h : d < 10) :
    d.digitChar.isDigit = true ∧ d.digitChar.toNat - '0'.toNat = d := by
  revert d
  decide

theorem digits_toDigits (n : Nat) : Digits (Nat.toDigits 10 n) n := by
  induction n using Nat.strongRecOn with
  | _ n ih =>
      rw [Nat.toDigits_eq_if (by decide)]
      split
      · rename_i hsmall
        obtain ⟨hdigit, hvalue⟩ := isDigit_digitChar hsmall
        have hone := Digits.one hdigit
        rwa [hvalue] at hone
      · obtain ⟨hdigit, hvalue⟩ := isDigit_digitChar (Nat.mod_lt n (by decide))
        have hrest := Digits.snoc (ih (n / 10) (by omega)) hdigit
        rwa [hvalue, Nat.div_add_mod] at hrest

theorem numeral_integerChars (n : Int) : Numeral (integerChars n) n := by
  have hdigits := digits_toDigits n.natAbs
  rw [integerChars]
  split
  · rename_i hneg
    have hnumeral := Numeral.negative hdigits
    rwa [show -(n.natAbs : Int) = n by omega] at hnumeral
  · rename_i hnonneg
    have hnumeral := Numeral.unsigned hdigits
    rwa [show (n.natAbs : Int) = n by omega] at hnumeral

end KeyScan.Text
