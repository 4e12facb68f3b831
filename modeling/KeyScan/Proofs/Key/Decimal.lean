import KeyScan.Proofs.Key.Range
import KeyScan.Text.Integer

/-! # Decimal texts as keys

Keys are compared from the left, numbers by their size. The two agree on natural numbers with the
same number of digits, and not in general: `10` comes before `9`. -/

namespace KeyScan.Key

/-- The key of a whole number, which is its decimal text. -/
def ofInteger (n : Int) : Key :=
  ofText (Text.ofInteger n)

/-! ### Digits as bytes -/

theorem utf8EncodeChar_digitChar {d : Nat} (hd : d < 10) :
    String.utf8EncodeChar d.digitChar = [UInt8.ofNat (48 + d)] := by
  revert d
  decide

/-- The key of a number ends in the byte of its last digit, after the key of the rest. -/
theorem ofInteger_natCast (n : Nat) :
    ofInteger n = if n < 10 then [UInt8.ofNat (48 + n)]
      else ofInteger (n / 10 : Nat) ++ [UInt8.ofNat (48 + n % 10)] := by
  have hkey : ∀ m : Nat, ofInteger m = (Nat.toDigits 10 m).flatMap String.utf8EncodeChar := by
    intro m
    have hsign : ¬ (m : Int) < 0 := by omega
    simp [ofInteger, Text.ofInteger, Text.integerChars, hsign, ofText, List.utf8Encode]
  rw [hkey, hkey, Nat.toDigits_eq_if (by decide)]
  split
  · rename_i hn
    rw [List.flatMap_singleton, utf8EncodeChar_digitChar hn]
  · rw [List.flatMap_append, List.flatMap_singleton,
      utf8EncodeChar_digitChar (Nat.mod_lt n (by decide))]

theorem length_ofInteger_pos (n : Nat) : 0 < (ofInteger n).length := by
  rw [ofInteger_natCast]
  split <;> simp

theorem digit_lt_digit {d e : Nat} (he : e < 10) (h : d < e) :
    [UInt8.ofNat (48 + d)] < [UInt8.ofNat (48 + e)] := by
  have hbytes : UInt8.ofNat (48 + d) < UInt8.ofNat (48 + e) := by
    rw [UInt8.lt_iff_toNat_lt, UInt8.toNat_ofNat', UInt8.toNat_ofNat']
    omega
  exact List.cons_lt_cons_iff.mpr (Or.inl hbytes)

/-! ### Numbers of one width -/

/-- Of two numbers with the same number of digits, the smaller one comes first: they differ in the
digits before the last or, these being the same, in the last. -/
theorem ofInteger_lt_of_lt {m n : Nat} (hlength : (ofInteger m).length = (ofInteger n).length)
    (h : m < n) : ofInteger m < ofInteger n := by
  induction m using Nat.strongRecOn generalizing n with
  | _ m ih =>
      rw [ofInteger_natCast m, ofInteger_natCast n] at hlength ⊢
      by_cases hm : m < 10
      · by_cases hn : n < 10
        · rw [if_pos hm, if_pos hn]
          exact digit_lt_digit hn h
        · have hrest := length_ofInteger_pos (n / 10)
          simp only [if_pos hm, if_neg hn, List.length_append, List.length_singleton] at hlength
          omega
      · have hn : ¬ n < 10 := by omega
        simp only [if_neg hm, if_neg hn, List.length_append, List.length_singleton,
          Nat.add_right_cancel_iff] at hlength ⊢
        by_cases htenth : m / 10 = n / 10
        · rw [htenth, append_lt_append_iff]
          exact digit_lt_digit (Nat.mod_lt n (by decide)) (by omega)
        · exact append_lt_append_of_lt hlength (ih (m / 10) (by omega) hlength (by omega)) _ _

theorem ofInteger_lt_iff {m n : Nat} (hlength : (ofInteger m).length = (ofInteger n).length) :
    ofInteger m < ofInteger n ↔ m < n := by
  refine ⟨fun hkey => ?_, ofInteger_lt_of_lt hlength⟩
  rcases Nat.lt_trichotomy m n with hlt | rfl | hgt
  · exact hlt
  · exact absurd hkey (List.lt_irrefl _)
  · exact absurd hkey (List.lt_asymm (ofInteger_lt_of_lt hlength.symm hgt))

theorem ofInteger_le_iff {m n : Nat} (hlength : (ofInteger m).length = (ofInteger n).length) :
    ofInteger m ≤ ofInteger n ↔ m ≤ n := by
  rw [← List.not_lt, ofInteger_lt_iff hlength.symm, Nat.not_lt]

example : ofInteger 10 < ofInteger 9 := by decide

end KeyScan.Key
