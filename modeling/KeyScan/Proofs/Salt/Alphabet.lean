import KeyScan.Proofs.Salt.Buckets
import Mathlib.Data.List.Perm.Subperm

/-! # Alphabets of disjoint ranges

Only neighbours of the sorted ranges are compared, which is enough: in order, a range that overlaps any
later one overlaps the next. So an alphabet is accepted exactly if no byte lies in two of its ranges,
and then it has as many bytes as its ranges together. -/

namespace KeyScan

namespace CharRange

variable {range a b : CharRange}

/-! ### Numbers of bytes -/

theorem length_bytes_le (range : CharRange) : range.bytes.length ≤ range.size := by
  rw [bytes, List.length_map, List.length_range', size]
  omega

theorem length_bytes (h : range.first ≤ range.last) : range.bytes.length = range.size := by
  have hle := UInt8.le_iff_toNat_le.mp h
  rw [bytes, List.length_map, List.length_range', size]
  omega

/-! ### Bytes of two ranges -/

/-- No byte lies in both ranges. -/
def Disjoint (a b : CharRange) : Prop :=
  ∀ byte, ¬ (a.contains byte = true ∧ b.contains byte = true)

theorem Apart.disjoint (h : a.Apart b) : a.Disjoint b := by
  rintro byte ⟨ha, hb⟩
  exact h.disjoint_bytes ((a.mem_bytes_iff byte).mpr ha) ((b.mem_bytes_iff byte).mpr hb)

theorem disjoint_iff_apart (ha : a.first ≤ a.last) (hb : b.first ≤ b.last) :
    a.Disjoint b ↔ a.Apart b := by
  refine ⟨fun h => apart_of_disjoint_bytes ha hb ?_, Apart.disjoint⟩
  intro byte hina hinb
  exact h byte ⟨(a.mem_bytes_iff byte).mp hina, (b.mem_bytes_iff byte).mp hinb⟩

theorem pairwise_disjoint_iff_apart {ranges : List CharRange}
    (h : ∀ range ∈ ranges, range.first ≤ range.last) :
    ranges.Pairwise Disjoint ↔ ranges.Pairwise Apart :=
  ⟨fun hd => hd.imp_of_mem fun ha hb => (disjoint_iff_apart (h _ ha) (h _ hb)).mp,
    fun ha => ha.imp Apart.disjoint⟩

/-- The bytes of a range, each once and in ascending order. -/
structure ListedBy (range : CharRange) (part : List UInt8) : Prop where
  ascending : part.Pairwise (· < ·)
  mem_iff : ∀ byte, byte ∈ part ↔ range.first ≤ byte ∧ byte ≤ range.last

theorem listedBy_bytes (range : CharRange) : range.ListedBy range.bytes where
  ascending := range.pairwise_bytes
  mem_iff := by
    intro byte
    rw [mem_bytes_iff, contains_iff, UInt8.le_iff_toNat_le, UInt8.le_iff_toNat_le]

end CharRange

namespace Salt

open CharRange (Apart Disjoint ListedBy)

variable {salt : Salt} {ranges : List CharRange}

theorem length_bytes_le (salt : Salt) : salt.bytes.length ≤ salt.size := by
  obtain ⟨ranges⟩ := salt
  induction ranges with
  | nil => exact Nat.le_refl 0
  | cons range rest ih =>
      have hrange := range.length_bytes_le
      simp only [bytes, size, CharRange.totalSize, List.flatMap_cons, List.length_append] at ih ⊢
      omega

theorem length_bytes (h : ∀ range ∈ salt.ranges, range.first ≤ range.last) :
    salt.bytes.length = salt.size := by
  obtain ⟨ranges⟩ := salt
  induction ranges with
  | nil => rfl
  | cons range rest ih =>
      have hrange := CharRange.length_bytes (h range List.mem_cons_self)
      have hrest := ih fun other hother => h other (List.mem_cons_of_mem range hother)
      simp only [bytes, size, CharRange.totalSize, List.flatMap_cons,
        List.length_append] at hrest ⊢
      omega

/-- There are no more salt bytes than bytes. -/
theorem Valid.size_le (h : salt.Valid) : salt.size ≤ 256 := by
  have hnodup : (salt.bytes.map UInt8.toNat).Nodup :=
    h.nodup_bytes.map fun a b hab => UInt8.toNat_inj.mp hab
  have hsubset : salt.bytes.map UInt8.toNat ⊆ List.range 256 := by
    intro n hn
    obtain ⟨byte, _, rfl⟩ := List.mem_map.mp hn
    exact List.mem_range.mpr byte.toNat_lt
  have hlength := (List.subperm_of_subset hnodup hsubset).length_le
  rw [List.length_map, List.length_range] at hlength
  rwa [← length_bytes h.ordered]

/-! ### Sorted ranges -/

theorem precedes_iff (a b : CharRange) :
    precedes a b = true ↔ a.first < b.first ∨ a.first = b.first ∧ a.last ≤ b.last := by
  simp [precedes]

theorem pairwise_precedes_mergeSort (ranges : List CharRange) :
    (ranges.mergeSort precedes).Pairwise fun a b => precedes a b = true := by
  refine List.pairwise_mergeSort ?_ ?_ ranges
  · intro a b c hab hbc
    rw [precedes_iff] at *
    grind
  · intro a b
    rw [Bool.or_eq_true, precedes_iff, precedes_iff]
    grind

/-- Where the ranges are sorted and apart, no neighbours overlap. -/
theorem overlap?_eq_none_of_apart (hordered : ∀ range ∈ ranges, range.first ≤ range.last)
    (hsorted : ranges.Pairwise fun a b => precedes a b = true) (h : ranges.Pairwise Apart) :
    overlap? ranges = none := by
  fun_induction overlap? ranges with
  | case1 a b rest hle =>
      -- The second starts no earlier than the first, so it would have to end before it starts.
      have hprecedes := (precedes_iff a b).mp (List.rel_of_pairwise_cons hsorted List.mem_cons_self)
      have hapart : a.Apart b := List.rel_of_pairwise_cons h List.mem_cons_self
      have hb : b.first ≤ b.last := hordered b (by simp)
      rw [CharRange.Apart] at hapart
      grind
  | case2 a b rest _ ih =>
      exact ih (fun range hrange => hordered range (List.mem_cons_of_mem a hrange))
        (List.pairwise_cons.mp hsorted).2 (List.pairwise_cons.mp h).2
  | case3 => rfl

/-! ### Accepted ranges -/

/-- Ranges whose ends are in order are accepted if and only if there are any and they are apart. -/
theorem ofRanges_eq_ok_iff_apart (hordered : ∀ range ∈ ranges, range.first ≤ range.last) :
    ofRanges ranges = .ok salt ↔ ranges ≠ [] ∧ ranges.Pairwise Apart ∧ salt = ⟨ranges⟩ := by
  constructor
  · intro h
    obtain ⟨hne, _, rfl⟩ := ofRanges_eq_ok_iff.mp h
    exact ⟨hne, Valid.pairwise_apart ⟨h, hordered⟩, rfl⟩
  · rintro ⟨hne, hapart, rfl⟩
    refine ofRanges_eq_ok_iff.mpr ⟨hne, ?_, rfl⟩
    have hperm := List.mergeSort_perm ranges precedes
    exact overlap?_eq_none_of_apart (fun range hrange => hordered range (hperm.mem_iff.mp hrange))
      (pairwise_precedes_mergeSort ranges)
      ((hperm.pairwise_iff fun h => h.symm).mpr hapart)

/-- Ranges are an alphabet if and only if there are any and no two of them have a byte in common,
wherever they stand. The alphabet then lists the bytes of one range after the other, as declared: each
byte that lies in one of them once, and as many as its size. -/
theorem ofRanges_accepts_disjoint (hordered : ∀ range ∈ ranges, range.first ≤ range.last) :
    ((∃ salt, ofRanges ranges = .ok salt) ↔ ranges ≠ [] ∧ ranges.Pairwise Disjoint) ∧
      ∀ salt, ofRanges ranges = .ok salt →
        salt.ranges = ranges ∧ salt.bytes.Nodup ∧ salt.bytes.length = salt.size ∧
          (∀ byte, byte ∈ salt.bytes ↔ ∃ range ∈ ranges, range.contains byte = true) ∧
          ∃ parts, salt.bytes = parts.flatten ∧ List.Forall₂ ListedBy ranges parts := by
  constructor
  · rw [CharRange.pairwise_disjoint_iff_apart hordered]
    constructor
    · rintro ⟨salt, h⟩
      obtain ⟨hne, hapart, _⟩ := (ofRanges_eq_ok_iff_apart hordered).mp h
      exact ⟨hne, hapart⟩
    · rintro ⟨hne, hapart⟩
      exact ⟨_, (ofRanges_eq_ok_iff_apart hordered).mpr ⟨hne, hapart, rfl⟩⟩
  · intro salt h
    obtain ⟨_, _, rfl⟩ := ofRanges_eq_ok_iff.mp h
    refine ⟨rfl, Valid.nodup_bytes ⟨h, hordered⟩, length_bytes hordered, mem_bytes_iff _,
      ranges.map CharRange.bytes, List.flatMap_def, ?_⟩
    rw [List.forall₂_map_right_iff, List.forall₂_same]
    exact fun range _ => range.listedBy_bytes

/-- Letters before digits, and the last of all bytes: declared out of order, and accepted. With a letter
declared again, far from the letters, they are not. -/
theorem ofRanges_accepts_disjoint_letters :
    (∃ salt, ofRanges [⟨97, 102⟩, ⟨255, 255⟩, ⟨48, 57⟩] = .ok salt ∧ salt.bytes.Nodup ∧
      salt.bytes.length = 17 ∧ (99 ∈ salt.bytes ∧ 103 ∉ salt.bytes)) ∧
      ¬ ∃ salt, ofRanges [⟨97, 102⟩, ⟨255, 255⟩, ⟨48, 57⟩, ⟨99, 99⟩] = .ok salt := by
  obtain ⟨haccepted, hbytes⟩ :=
    @ofRanges_accepts_disjoint [⟨97, 102⟩, ⟨255, 255⟩, ⟨48, 57⟩] (by decide)
  have hapart : [⟨97, 102⟩, ⟨255, 255⟩, ⟨48, 57⟩].Pairwise Apart := by decide
  obtain ⟨salt, hsalt⟩ := haccepted.mpr ⟨by decide, hapart.imp Apart.disjoint⟩
  obtain ⟨hranges, hnodup, hlength, hmem, _⟩ := hbytes salt hsalt
  refine ⟨⟨salt, hsalt, hnodup, ?_, ?_, ?_⟩, ?_⟩
  · rw [hlength, size, hranges]
    rfl
  · rw [hmem]
    exact ⟨⟨97, 102⟩, by decide, by decide⟩
  · rw [hmem]
    decide
  · obtain ⟨hrefused, _⟩ :=
      @ofRanges_accepts_disjoint [⟨97, 102⟩, ⟨255, 255⟩, ⟨48, 57⟩, ⟨99, 99⟩] (by decide)
    rw [hrefused]
    rintro ⟨_, hdisjoint⟩
    exact (List.pairwise_cons.mp hdisjoint).1 ⟨99, 99⟩ (by decide) 99 (by decide)

end Salt

end KeyScan
