import KeyScan.Key.Basic
import KeyScan.Proofs.Lists
import KeyScan.Text.Utf8

/-! # Reading UTF-8 back

The bytes of a character bring the reader from between characters back there, with the character read.
So the bytes of a text are decoded to that text. -/

namespace KeyScan.Text

/-! ### The reader's steps -/

section Steps

variable {byte : UInt8} {rest : List UInt8} {bits following owed low high : Nat}

theorem decodeFrom_single (h : Lead.ofByte? byte.toNat = some ⟨0, bits, low, high⟩) :
    decodeFrom .between (byte :: rest) = some (Char.ofNat bits) :: decodeFrom .between rest := by
  simp [decodeFrom, Utf8State.step, openByte, h]

theorem decodeFrom_lead
    (h : Lead.ofByte? byte.toNat = some ⟨following + 1, bits, low, high⟩) :
    decodeFrom .between (byte :: rest) = decodeFrom (.inside bits (following + 1) low high) rest := by
  simp [decodeFrom, Utf8State.step, openByte, h]

theorem decodeFrom_last {n : Nat} (hbyte : byte.toNat = n + 128) (hlow : low ≤ n + 128)
    (hhigh : n + 128 ≤ high) :
    decodeFrom (.inside bits 1 low high) (byte :: rest) =
      some (Char.ofNat (64 * bits + n)) :: decodeFrom .between rest := by
  simp [decodeFrom, Utf8State.step, hbyte, hlow, hhigh]

theorem decodeFrom_next {n : Nat} (hbyte : byte.toNat = n + 128) (hlow : low ≤ n + 128)
    (hhigh : n + 128 ≤ high) :
    decodeFrom (.inside bits (owed + 2) low high) (byte :: rest) =
      decodeFrom (.inside (64 * bits + n) (owed + 1) 128 191) rest := by
  simp [decodeFrom, Utf8State.step, hbyte, hlow, hhigh]

end Steps

/-! ### First bytes -/

theorem Lead.ofByte?_two {v : Nat} (hlow : 127 < v) (hhigh : v ≤ 2047) :
    Lead.ofByte? (v / 64 % 32 + 192) = some ⟨1, v / 64, 128, 191⟩ := by
  have hbits : v / 64 % 32 + 192 - 192 = v / 64 := by omega
  rw [Lead.ofByte?, if_neg (by omega), if_pos (by omega), hbits]

/-- The second byte of three is in the range that the first allows, as the character is in no shorter
form and no surrogate. -/
theorem Lead.exists_ofByte?_three {v : Nat} (hlow : 2047 < v) (hhigh : v ≤ 65535)
    (hvalid : v < 55296 ∨ 57343 < v) :
    ∃ low high, Lead.ofByte? (v / 4096 % 16 + 224) = some ⟨2, v / 4096, low, high⟩ ∧
      low ≤ v / 64 % 64 + 128 ∧ v / 64 % 64 + 128 ≤ high := by
  rw [Lead.ofByte?, if_neg (by omega), if_neg (by omega)]
  split
  · have hbits : v / 4096 = 0 := by omega
    exact ⟨160, 191, by rw [hbits], by omega, by omega⟩
  · split
    · have hbits : v / 4096 = 13 := by omega
      exact ⟨128, 159, by rw [hbits], by omega, by omega⟩
    · have hbits : v / 4096 % 16 + 224 - 224 = v / 4096 := by omega
      rw [if_pos (by omega), hbits]
      exact ⟨128, 191, rfl, by omega, by omega⟩

/-- The second byte of four is in the range that the first allows, as the character is in no shorter
form and not past the last. -/
theorem Lead.exists_ofByte?_four {v : Nat} (hlow : 65535 < v) (hhigh : v < 1114112) :
    ∃ low high, Lead.ofByte? (v / 262144 % 8 + 240) = some ⟨3, v / 262144, low, high⟩ ∧
      low ≤ v / 4096 % 64 + 128 ∧ v / 4096 % 64 + 128 ≤ high := by
  rw [Lead.ofByte?, if_neg (by omega), if_neg (by omega), if_neg (by omega), if_neg (by omega),
    if_neg (by omega)]
  split
  · have hbits : v / 262144 = 0 := by omega
    exact ⟨144, 191, by rw [hbits], by omega, by omega⟩
  · split
    · have hbits : v / 262144 % 8 + 240 - 240 = v / 262144 := by omega
      exact ⟨128, 191, by rw [hbits], by omega, by omega⟩
    · have hbits : v / 262144 = 4 := by omega
      rw [if_pos (by omega), hbits]
      exact ⟨128, 143, rfl, by omega, by omega⟩

/-! ### Characters and texts -/

theorem decodeFrom_utf8EncodeChar (c : Char) (rest : List UInt8) :
    decodeFrom .between (String.utf8EncodeChar c ++ rest) = some c :: decodeFrom .between rest := by
  have hvalid : c.val.toNat < 55296 ∨ 57343 < c.val.toNat ∧ c.val.toNat < 1114112 := c.valid
  have hchar : Char.ofNat c.val.toNat = c := Char.ofNat_toNat c
  have hbyte : ∀ n < 256, (UInt8.ofNat n).toNat = n := fun n hn => UInt8.toNat_ofNat_of_lt' hn
  rw [String.utf8EncodeChar]
  generalize c.val.toNat = v at hvalid hchar
  -- One case for each number of bytes; the bits of all bytes together are the character's number.
  split
  · have hlead : Lead.ofByte? (UInt8.ofNat v).toNat = some ⟨0, v, 0x80, 0xBF⟩ := by
      rw [hbyte v (by omega), Lead.ofByte?, if_pos (by omega)]
    rw [List.singleton_append, decodeFrom_single hlead, hchar]
  · split
    · have hlead := Lead.ofByte?_two (v := v) (by omega) (by omega)
      rw [← hbyte (v / 64 % 32 + 192) (by omega)] at hlead
      have hbits : 64 * (v / 64) + v % 64 = v := Nat.div_add_mod v 64
      rw [List.cons_append, List.singleton_append, decodeFrom_lead hlead,
        decodeFrom_last (hbyte _ (by omega)) (by omega) (by omega), hbits, hchar]
    · split
      · obtain ⟨low, high, hlead, hlow, hhigh⟩ :=
          Lead.exists_ofByte?_three (v := v) (by omega) (by omega) (by omega)
        rw [← hbyte (v / 4096 % 16 + 224) (by omega)] at hlead
        have hbits : 64 * (64 * (v / 4096) + v / 64 % 64) + v % 64 = v := by omega
        rw [List.cons_append, List.cons_append, List.singleton_append, decodeFrom_lead hlead,
          decodeFrom_next (hbyte _ (by omega)) hlow hhigh,
          decodeFrom_last (hbyte _ (by omega)) (by omega) (by omega), hbits, hchar]
      · obtain ⟨low, high, hlead, hlow, hhigh⟩ :=
          Lead.exists_ofByte?_four (v := v) (by omega) (by omega)
        rw [← hbyte (v / 262144 % 8 + 240) (by omega)] at hlead
        have hbits : 64 * (64 * (64 * (v / 262144) + v / 4096 % 64) + v / 64 % 64) + v % 64 = v := by
          omega
        rw [List.cons_append, List.cons_append, List.cons_append, List.singleton_append,
          decodeFrom_lead hlead, decodeFrom_next (hbyte _ (by omega)) hlow hhigh,
          decodeFrom_next (hbyte _ (by omega)) (by omega) (by omega),
          decodeFrom_last (hbyte _ (by omega)) (by omega) (by omega), hbits, hchar]

theorem decodeFrom_flatMap_utf8EncodeChar (cs : List Char) :
    decodeFrom .between (cs.flatMap String.utf8EncodeChar) = cs.map some := by
  induction cs with
  | nil => rfl
  | cons c rest ih => rw [List.flatMap_cons, decodeFrom_utf8EncodeChar, ih, List.map_cons]

/-- The bytes of a text are read as that text. -/
theorem decode?_ofText (text : String) : decode? (Key.ofText text) = some text := by
  have hbytes : Key.ofText text = text.toList.flatMap String.utf8EncodeChar := by
    obtain ⟨cs, rfl⟩ : ∃ cs, text = String.ofList cs := ⟨text.toList, by simp⟩
    simp [Key.ofText, List.utf8Encode]
  have hchars : (text.toList.map some).mapM id = some text.toList := by
    rw [mapM_eq_some_iff, List.map_id]
  rw [decode?, hbytes, decodeFrom_flatMap_utf8EncodeChar, hchars, Option.map_some,
    String.ofList_toList]

end KeyScan.Text
