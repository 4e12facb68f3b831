import KeyScan.Proofs.Salt.Alphabet
import KeyScan.Proofs.Salt.Grammar

/-! # The texts that declare an alphabet

Where the marks may stand as bounds depends on what else is in a piece: the first tilde is the mark
wherever there is one, and only without one the first hyphen is. A text is read as an alphabet exactly
if each of its pieces denotes a range and no two of these have a byte in common. -/

namespace KeyScan

namespace CharRange

variable {range : CharRange} {input : String} {core : List Char}

/-- What a piece without blanks around it denotes: a character the range of itself, and two of them with
a mark between them the range from the smaller to the larger. -/
inductive Denotes : List Char → CharRange → Prop
  | alone {c : Char} (hc : c.toNat < 128) :
      Denotes [c] ⟨UInt8.ofNat c.toNat, UInt8.ofNat c.toNat⟩
  | tilde {a b : Char} (ha : a.toNat < 128) (hb : b.toNat < 128) (hfirst : a ≠ '~') :
      Denotes [a, '~', b]
        ⟨UInt8.ofNat (min a.toNat b.toNat), UInt8.ofNat (max a.toNat b.toNat)⟩
  | hyphen {a b : Char} (ha : a.toNat < 128) (hb : b.toNat < 128)
      (hfirst : a ≠ '-' ∧ a ≠ '~') (hlast : b ≠ '~') :
      Denotes [a, '-', b]
        ⟨UInt8.ofNat (min a.toNat b.toNat), UInt8.ofNat (max a.toNat b.toNat)⟩

theorem spanning_ofNat {m n : Nat} (hm : m < 128) (hn : n < 128) :
    spanning (UInt8.ofNat m) (UInt8.ofNat n) =
      ⟨UInt8.ofNat (min m n), UInt8.ofNat (max m n)⟩ := by
  have hle : UInt8.ofNat m ≤ UInt8.ofNat n ↔ m ≤ n := by
    rw [UInt8.le_iff_toNat_le, UInt8.toNat_ofNat_of_lt' (Nat.lt_trans hm (by decide)),
      UInt8.toNat_ofNat_of_lt' (Nat.lt_trans hn (by decide))]
  rw [spanning]
  split
  · rename_i h
    rw [Nat.min_eq_left (hle.mp h), Nat.max_eq_right (hle.mp h)]
  · rename_i h
    have hge : n ≤ m := Nat.le_of_not_le fun hmn => h (hle.mpr hmn)
    rw [Nat.min_eq_right hge, Nat.max_eq_left hge]

/-- A piece that denotes the range when the blanks around it are gone. -/
def IsPiece (text : String) (range : CharRange) : Prop :=
  ∃ core, Text.Trims text.toList core ∧ Denotes core range

/-- A range is read exactly from the pieces for it. -/
theorem parse_eq_ok_iff_isPiece : parse input = .ok range ↔ IsPiece input range := by
  rw [parse_eq_ok_iff, IsPiece]
  simp only [← Text.trimChars_eq_iff, exists_eq_left']
  constructor
  · rintro (⟨c, hcs, hc, rfl⟩ | ⟨a, b, ⟨hcs, hfirst⟩ | ⟨hcs, hhyphen, htilde, hlast⟩, ha, hb, rfl⟩)
    · rw [hcs]
      exact .alone hc
    · rw [hcs, spanning_ofNat ha hb]
      exact .tilde ha hb hfirst
    · rw [hcs, spanning_ofNat ha hb]
      exact .hyphen ha hb ⟨hhyphen, htilde⟩ hlast
  · generalize Text.trimChars input.toList = cs
    intro h
    cases h with
    | alone hc => exact Or.inl ⟨_, rfl, hc, rfl⟩
    | tilde ha hb hfirst =>
        exact Or.inr ⟨_, _, Or.inl ⟨rfl, hfirst⟩, ha, hb, (spanning_ofNat ha hb).symm⟩
    | hyphen ha hb hfirst hlast =>
        exact Or.inr ⟨_, _, Or.inr ⟨rfl, hfirst.1, hfirst.2, hlast⟩, ha, hb,
          (spanning_ofNat ha hb).symm⟩

-- A hyphen is a bound where a tilde comes before it, but a tilde is none where a hyphen does.
example : parse " a~- " = .ok ⟨45, 97⟩ := by decide +kernel

example : (parse "a-~").isOk = false := by decide +kernel

theorem Denotes.ordered (h : Denotes core range) : range.first ≤ range.last := by
  have hle : ∀ m n : Nat, m < 128 → n < 128 →
      UInt8.ofNat (min m n) ≤ UInt8.ofNat (max m n) := by
    intro m n hm hn
    rw [UInt8.le_iff_toNat_le, UInt8.toNat_ofNat_of_lt' (by rw [UInt8.size]; omega),
      UInt8.toNat_ofNat_of_lt' (by rw [UInt8.size]; omega)]
    omega
  cases h with
  | alone hc => exact UInt8.le_refl _
  | tilde ha hb _ => exact hle _ _ ha hb
  | hyphen ha hb _ _ => exact hle _ _ ha hb

/-- Texts are refused with one kind of error. -/
theorem exists_of_parse_eq_error {error : Error} (h : parse input = .error error) :
    ∃ named message, error = .invalidRange named message := by
  rw [parse] at h
  split at h
  · simp at h
  · split at h
    · exact ⟨_, _, (Except.error.inj h).symm⟩
    · split at h
      · simp at h
      · exact ⟨_, _, (Except.error.inj h).symm⟩

end CharRange

namespace Salt

open CharRange (Disjoint IsPiece)

variable {input : String} {salt : Salt} {ranges : List CharRange}

/-- The texts between the commas are pieces for the ranges, in order, and no byte lies in two of
these. -/
def Declares (input : String) (ranges : List CharRange) : Prop :=
  ∃ texts, Text.SplitAt ',' input texts ∧ List.Forall₂ IsPiece texts ranges ∧
    ranges.Pairwise Disjoint

theorem Declares.pairwise_disjoint (h : Declares input ranges) : ranges.Pairwise Disjoint := by
  obtain ⟨_, _, _, hdisjoint⟩ := h
  exact hdisjoint

theorem map_parse_pieces_iff :
    (Text.pieces ',' input).map CharRange.parse = ranges.map .ok ↔
      List.Forall₂ IsPiece (Text.pieces ',' input) ranges := by
  rw [← List.forall₂_eq_eq_eq, List.forall₂_map_left_iff, List.forall₂_map_right_iff]
  simp only [CharRange.parse_eq_ok_iff_isPiece]

theorem ordered_of_isPiece {texts : List String} (h : List.Forall₂ IsPiece texts ranges) :
    ∀ range ∈ ranges, range.first ≤ range.last := by
  induction h with
  | nil => simp
  | cons hrange _ ih =>
      obtain ⟨core, _, hdenotes⟩ := hrange
      exact List.forall_mem_cons.mpr ⟨hdenotes.ordered, ih⟩

/-- A text that declares ranges is read as the alphabet of these, and no other text is read. -/
theorem parse_eq_ok_iff_declares : parse input = .ok salt ↔ Declares input salt.ranges := by
  rw [parse_eq_ok_iff, map_parse_pieces_iff]
  constructor
  · rintro ⟨hpieces, haccepted⟩
    have hordered := ordered_of_isPiece hpieces
    obtain ⟨_, hapart, _⟩ := (ofRanges_eq_ok_iff_apart hordered).mp haccepted
    exact ⟨_, Text.splitAt_pieces ',' input, hpieces,
      (CharRange.pairwise_disjoint_iff_apart hordered).mpr hapart⟩
  · rintro ⟨texts, hsplit, hpieces, hdisjoint⟩
    obtain rfl := Text.pieces_eq_iff.mpr hsplit
    have hordered := ordered_of_isPiece hpieces
    refine ⟨hpieces, (ofRanges_eq_ok_iff_apart hordered).mpr ⟨?_,
      (CharRange.pairwise_disjoint_iff_apart hordered).mp hdisjoint, rfl⟩⟩
    intro hempty
    rw [hempty, List.forall₂_nil_right_iff] at hpieces
    exact hsplit.ne_nil hpieces

theorem valid_of_parse (h : parse input = .ok salt) : salt.Valid := by
  obtain ⟨hpieces, haccepted⟩ := parse_eq_ok_iff.mp h
  exact ⟨haccepted, ordered_of_isPiece (map_parse_pieces_iff.mp hpieces)⟩

/-- Texts are refused with one kind of error, whether a piece denotes no range or two ranges overlap. -/
theorem exists_of_parse_eq_error {error : Error} (h : parse input = .error error) :
    ∃ named message, error = .invalidRange named message := by
  rw [parse, bind_eq_error_iff] at h
  rcases h with hpieces | ⟨ranges, _, h⟩
  · obtain ⟨piece, _, hpiece⟩ := exists_mem_of_mapM_eq_error hpieces
    exact CharRange.exists_of_parse_eq_error hpiece
  · split at h
    · exact ⟨_, _, (Except.error.inj h).symm⟩
    · exact exists_of_ofRanges_eq_error h

/-- The grammar of alphabets: a text is read exactly if it declares ranges, and as these in their order;
it is refused as an invalid range and in no other way. -/
theorem parse_accepts_grammar (input : String) :
    (∀ salt, parse input = .ok salt ↔ Declares input salt.ranges) ∧
      ((∃ salt, parse input = .ok salt) ↔ ∃ ranges, Declares input ranges) ∧
      ∀ error, parse input = .error error →
        ∃ named message, error = .invalidRange named message := by
  refine ⟨fun salt => parse_eq_ok_iff_declares, ?_, fun error => exists_of_parse_eq_error⟩
  constructor
  · rintro ⟨salt, h⟩
    exact ⟨salt.ranges, parse_eq_ok_iff_declares.mp h⟩
  · rintro ⟨ranges, h⟩
    exact ⟨⟨ranges⟩, parse_eq_ok_iff_declares.mpr h⟩

end Salt

end KeyScan
