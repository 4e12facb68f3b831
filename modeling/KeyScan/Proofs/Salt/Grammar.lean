import KeyScan.Proofs.Lists
import KeyScan.Proofs.Text.Cutting
import KeyScan.Salt.Basic

/-! # How salt alphabets are read

A range is read from one character, or from two with a mark between them; a tilde is looked for before
a hyphen. Ranges are written with a hyphen, so a range is read back unless the mark is taken for a
bound or a bound for the mark. -/

namespace KeyScan

namespace CharRange

variable {range : CharRange} {input : String} {cs : List Char}

theorem charOf_ofNat {c : Char} (h : c.toNat < 128) : charOf (UInt8.ofNat c.toNat) = c := by
  have hbyte : (UInt8.ofNat c.toNat).toNat = c.toNat :=
    UInt8.toNat_ofNat_of_lt' (Nat.lt_trans h (by decide))
  rw [charOf, hbyte, Char.ofNat_toNat]

theorem toNat_charOf (byte : UInt8) : (charOf byte).toNat = byte.toNat := by
  have hlt := byte.toNat_lt
  have hvalid : byte.toNat.isValidChar := Or.inl (by omega)
  rw [charOf, Char.ofNat, dif_pos hvalid]
  rfl

theorem bound?_eq_some_iff {byte : UInt8} :
    bound? cs = some byte ↔ ∃ c, cs = [c] ∧ c.toNat < 128 ∧ byte = UInt8.ofNat c.toNat := by
  match cs with
  | [] => simp [bound?]
  | [c] => simp [bound?, eq_comm]
  | first :: second :: rest => simp [bound?]

theorem sides?_eq_some_iff {low high : List Char} :
    sides? cs = some (low, high) ↔
      (cs = low ++ '~' :: high ∧ '~' ∉ low) ∨
        '~' ∉ cs ∧ cs = low ++ '-' :: high ∧ '-' ∉ low := by
  rw [sides?, Option.or_eq_some_iff, Text.cutAt_eq_some_iff, Text.cutAt_eq_none_iff,
    Text.cutAt_eq_some_iff]

/-- The two characters of a range and the mark between them. -/
def TwoBounds (cs : List Char) (a b : Char) : Prop :=
  cs = [a, '~', b] ∧ a ≠ '~' ∨ cs = [a, '-', b] ∧ a ≠ '-' ∧ a ≠ '~' ∧ b ≠ '~'

theorem sides?_singletons_iff {a b : Char} : sides? cs = some ([a], [b]) ↔ TwoBounds cs a b := by
  rw [sides?_eq_some_iff, TwoBounds]
  constructor
  · rintro (⟨rfl, ha⟩ | ⟨htilde, rfl, ha⟩)
    · exact Or.inl ⟨rfl, by simpa [eq_comm] using ha⟩
    · refine Or.inr ⟨rfl, by simpa [eq_comm] using ha, ?_⟩
      simpa [eq_comm] using htilde
  · rintro (⟨rfl, ha⟩ | ⟨rfl, ha, htilde⟩)
    · exact Or.inl ⟨rfl, by simpa [eq_comm] using ha⟩
    · exact Or.inr ⟨by simpa [eq_comm] using htilde, rfl, by simpa [eq_comm] using ha⟩

/-- What a range is read from: one ASCII character, or two with a mark between them. -/
theorem parse_eq_ok_iff :
    parse input = .ok range ↔
      (∃ c, Text.trimChars input.toList = [c] ∧ c.toNat < 128 ∧
        range = single (UInt8.ofNat c.toNat)) ∨
      ∃ a b, TwoBounds (Text.trimChars input.toList) a b ∧ a.toNat < 128 ∧ b.toNat < 128 ∧
        range = spanning (UInt8.ofNat a.toNat) (UInt8.ofNat b.toNat) := by
  rw [parse]
  generalize Text.trimChars input.toList = cs
  constructor
  · intro h
    split at h
    · rename_i byte hbyte
      obtain ⟨c, rfl, hc, rfl⟩ := bound?_eq_some_iff.mp hbyte
      exact Or.inl ⟨c, rfl, hc, (Except.ok.inj h).symm⟩
    · split at h
      · simp at h
      · rename_i low high hsides
        split at h
        · rename_i first last hfirst hlast
          obtain ⟨a, rfl, ha, rfl⟩ := bound?_eq_some_iff.mp hfirst
          obtain ⟨b, rfl, hb, rfl⟩ := bound?_eq_some_iff.mp hlast
          exact Or.inr ⟨a, b, sides?_singletons_iff.mp hsides, ha, hb, (Except.ok.inj h).symm⟩
        · simp at h
  · rintro (⟨c, rfl, hc, rfl⟩ | ⟨a, b, hcs, ha, hb, rfl⟩)
    · rw [bound?_eq_some_iff.mpr ⟨c, rfl, hc, rfl⟩]
    · have hlong : bound? cs = none := by
        rcases hcs with ⟨rfl, _⟩ | ⟨rfl, _⟩ <;> rfl
      simp only [hlong, sides?_singletons_iff.mpr hcs, bound?_eq_some_iff.mpr ⟨a, rfl, ha, rfl⟩,
        bound?_eq_some_iff.mpr ⟨b, rfl, hb, rfl⟩]

/-! ### Writing a range -/

/-- A byte that a range read from a piece of an alphabet may have for a bound. -/
def IsBound (byte : UInt8) : Prop :=
  byte.toNat < 128 ∧ Text.isBlank (charOf byte) = false ∧ charOf byte ≠ ','

/-- Neither bound of the range stands where a mark is looked for. -/
def Readable (range : CharRange) : Prop :=
  charOf range.first ≠ '-' ∧ charOf range.first ≠ '~' ∧ charOf range.last ≠ '~'

instance (range : CharRange) : Decidable range.Readable :=
  inferInstanceAs (Decidable (_ ∧ _ ∧ _))

/-- The bounds of a range that is read are characters of the text, in order. -/
theorem bounds_of_parse (h : parse input = .ok range) (hcomma : ',' ∉ input.toList) :
    range.first ≤ range.last ∧ IsBound range.first ∧ IsBound range.last := by
  have hbound : ∀ c, c ∈ Text.trimChars input.toList → c.toNat < 128 →
      Text.isBlank c = false → IsBound (UInt8.ofNat c.toNat) := by
    intro c hmem hc hblank
    have hbyte : (UInt8.ofNat c.toNat).toNat = c.toNat :=
      UInt8.toNat_ofNat_of_lt' (Nat.lt_trans hc (by decide))
    refine ⟨by rwa [hbyte], by rwa [charOf_ofNat hc], ?_⟩
    rw [charOf_ofNat hc]
    rintro rfl
    exact hcomma (Text.mem_of_mem_trimChars hmem)
  rcases parse_eq_ok_iff.mp h with ⟨c, hcs, hc, rfl⟩ | ⟨a, b, hcs, ha, hb, rfl⟩
  · have hc' := hbound c (by simp [hcs]) hc (Text.isBlank_head_trimChars hcs)
    exact ⟨UInt8.le_refl _, hc', hc'⟩
  · obtain ⟨mark, hcs⟩ : ∃ mark, Text.trimChars input.toList = [a, mark, b] := by
      rcases hcs with ⟨hcs, _⟩ | ⟨hcs, _⟩ <;> exact ⟨_, hcs⟩
    have ha' := hbound a (by simp [hcs]) ha (Text.isBlank_head_trimChars hcs)
    have hb' := hbound b (by simp [hcs]) hb (@Text.isBlank_last_trimChars _ _ [a, mark] hcs)
    rw [spanning]
    split
    · rename_i hle
      exact ⟨hle, ha', hb'⟩
    · rename_i hle
      exact ⟨Std.le_of_lt (UInt8.not_le.mp hle), hb', ha'⟩

/-- A range whose bounds are in order is read back from its own text exactly if it is readable. -/
theorem parse_text_iff (hle : range.first ≤ range.last) (hfirst : IsBound range.first)
    (hlast : IsBound range.last) : parse range.text = .ok range ↔ range.Readable := by
  have htrim : Text.trimChars range.text.toList = range.chars := by
    rw [text, String.toList_ofList]
    exact Text.trimChars_eq_self (by simpa [chars] using hfirst.2.1)
      (by simpa [chars] using hlast.2.1)
  rw [parse_eq_ok_iff, htrim, chars]
  constructor
  · rintro (⟨c, hc, _⟩ | ⟨a, b, ⟨hcs, _⟩ | ⟨hcs, ha⟩, _⟩)
    · simp at hc
    · simp at hcs
    · simp only [List.cons.injEq, true_and, and_true] at hcs
      obtain ⟨rfl, rfl⟩ := hcs
      exact ha
  · intro hreadable
    refine Or.inr ⟨_, _, Or.inr ⟨rfl, hreadable⟩, ?_, ?_, ?_⟩
    · rw [toNat_charOf]
      exact hfirst.1
    · rw [toNat_charOf]
      exact hlast.1
    · rw [toNat_charOf, toNat_charOf, UInt8.ofNat_toNat, UInt8.ofNat_toNat, spanning, if_pos hle]

end CharRange

namespace Salt

variable {salt : Salt} {input : String}

theorem ranges_of_ofRanges {ranges : List CharRange} (h : ofRanges ranges = .ok salt) :
    salt.ranges = ranges := by
  obtain ⟨_, _, rfl⟩ := ofRanges_eq_ok_iff.mp h
  rfl

/-- An alphabet is read from its ranges, piece by piece. -/
theorem parse_eq_ok_iff :
    parse input = .ok salt ↔
      (Text.pieces ',' input).map CharRange.parse = salt.ranges.map .ok ∧
        ofRanges salt.ranges = .ok salt := by
  rw [← mapM_eq_ok_iff, parse, bind_eq_ok_iff]
  constructor
  · rintro ⟨ranges, hranges, h⟩
    have hresult : ofRanges ranges = .ok salt := by
      split at h
      · simp at h
      · exact h
    have heq := ranges_of_ofRanges hresult
    exact ⟨heq ▸ hranges, heq ▸ hresult⟩
  · rintro ⟨hranges, h⟩
    exact ⟨salt.ranges, hranges, by rw [h]⟩

/-- An alphabet that was read is read back from its own text exactly if all its ranges are
readable. -/
theorem parse_text_iff (h : parse input = .ok salt) :
    parse salt.text = .ok salt ↔ ∀ range ∈ salt.ranges, range.Readable := by
  obtain ⟨hpieces, hsalt⟩ := parse_eq_ok_iff.mp h
  have hbounds : ∀ range ∈ salt.ranges, range.first ≤ range.last ∧
      CharRange.IsBound range.first ∧ CharRange.IsBound range.last := by
    intro range hrange
    have hmem : Except.ok range ∈ (Text.pieces ',' input).map CharRange.parse :=
      hpieces ▸ List.mem_map_of_mem hrange
    obtain ⟨piece, hpiece, hparse⟩ := List.mem_map.mp hmem
    exact CharRange.bounds_of_parse hparse (Text.not_mem_of_mem_pieces hpiece)
  have htexts : Text.pieces ',' salt.text = salt.ranges.map CharRange.text := by
    apply Text.pieces_intercalate
    · intro text htext
      obtain ⟨range, hrange, rfl⟩ := List.mem_map.mp htext
      obtain ⟨_, hfirst, hlast⟩ := hbounds range hrange
      have hfirst' := hfirst.2.2
      have hlast' := hlast.2.2
      simp [CharRange.text, CharRange.chars, hfirst'.symm, hlast'.symm]
    · simpa using (ofRanges_eq_ok_iff.mp hsalt).1
  rw [parse_eq_ok_iff, htexts, List.map_map, and_iff_left hsalt, List.map_inj_left]
  apply forall₂_congr
  intro range hrange
  obtain ⟨hle, hfirst, hlast⟩ := hbounds range hrange
  rw [Function.comp_apply]
  exact CharRange.parse_text_iff hle hfirst hlast

end Salt

end KeyScan
