import KeyScan.Proofs.Key.Range
import KeyScan.Salt.Basic
import KeyScan.Salt.Buckets
import Mathlib.Data.List.Forall2
import Mathlib.Data.List.Nodup

/-! # Buckets cover a salt alphabet

Cutting takes one bucket after the other off the front of a range while two full ones are left.
Each step keeps the bytes in order and counts one bucket, and the last bucket takes what remains. So
the buckets of an alphabet whose ranges do not overlap hold each salt byte once. -/

namespace KeyScan

namespace CharRange

theorem contains_iff (range : CharRange) (byte : UInt8) :
    range.contains byte = true ↔
      range.first.toNat ≤ byte.toNat ∧ byte.toNat ≤ range.last.toNat := by
  simp [contains, UInt8.le_iff_toNat_le]

theorem mem_bytes_iff (range : CharRange) (byte : UInt8) :
    byte ∈ range.bytes ↔ range.contains byte = true := by
  have hlast := range.last.toNat_lt
  rw [contains_iff, bytes, List.mem_map]
  constructor
  · rintro ⟨n, hn, rfl⟩
    rw [List.mem_range'_1] at hn
    have htoNat : (UInt8.ofNat n).toNat = n := by
      apply UInt8.toNat_ofNat_of_lt'
      change n < 256
      omega
    omega
  · intro hbyte
    refine ⟨byte.toNat, ?_, by simp⟩
    rw [List.mem_range'_1]
    omega

/-- The bytes of a range ascend, so none comes twice. -/
theorem pairwise_bytes (range : CharRange) : range.bytes.Pairwise (· < ·) := by
  have hlast := range.last.toNat_lt
  have htoNat : ∀ n ∈ List.range' range.first.toNat (range.last.toNat + 1 - range.first.toNat),
      (UInt8.ofNat n).toNat = n := by
    intro n hn
    rw [List.mem_range'_1] at hn
    apply UInt8.toNat_ofNat_of_lt'
    change n < 256
    omega
  rw [bytes, List.pairwise_map]
  refine List.Pairwise.imp_of_mem (fun {m n} hm hn hlt => ?_) List.pairwise_lt_range'
  rw [UInt8.lt_iff_toNat_lt, htoNat m hm, htoNat n hn]
  exact hlt

theorem nodup_bytes (range : CharRange) : range.bytes.Nodup :=
  range.pairwise_bytes.imp UInt8.ne_of_lt

/-- One of the ranges ends before the other begins. -/
def Apart (a b : CharRange) : Prop :=
  a.last < b.first ∨ b.last < a.first

instance (a b : CharRange) : Decidable (a.Apart b) :=
  inferInstanceAs (Decidable (_ ∨ _))

theorem Apart.disjoint_bytes {a b : CharRange} (h : a.Apart b) :
    List.Disjoint a.bytes b.bytes := by
  intro byte ha hb
  rw [mem_bytes_iff, contains_iff] at ha hb
  simp only [Apart, UInt8.lt_iff_toNat_lt] at h
  omega

/-- Ranges without a common byte are apart, unless one of them is crossed. -/
theorem apart_of_disjoint_bytes {a b : CharRange} (ha : a.first ≤ a.last)
    (hb : b.first ≤ b.last) (h : List.Disjoint a.bytes b.bytes) : a.Apart b := by
  simp only [List.Disjoint, mem_bytes_iff, contains_iff] at h
  simp only [Apart, UInt8.lt_iff_toNat_lt]
  rw [UInt8.le_iff_toNat_le] at ha hb
  by_contra hmeet
  -- The later of the two first bytes is in both ranges.
  rcases Nat.le_total a.first.toNat b.first.toNat with hle | hle
  · exact @h b.first (by omega) (by omega)
  · exact @h a.first (by omega) (by omega)

theorem nodup_flatMap_bytes {ranges : List CharRange} (h : ranges.Pairwise Apart) :
    (ranges.flatMap bytes).Nodup :=
  List.nodup_flatMap.mpr ⟨fun range _ => range.nodup_bytes, h.imp Apart.disjoint_bytes⟩

/-- No byte is listed twice if and only if the ranges are apart from each other. -/
theorem nodup_flatMap_bytes_iff {ranges : List CharRange}
    (h : ∀ range ∈ ranges, range.first ≤ range.last) :
    (ranges.flatMap bytes).Nodup ↔ ranges.Pairwise Apart := by
  refine ⟨fun hnodup => ?_, nodup_flatMap_bytes⟩
  obtain ⟨_, hdisjoint⟩ := List.nodup_flatMap.mp hnodup
  exact hdisjoint.imp_of_mem fun ha hb hab => apart_of_disjoint_bytes (h _ ha) (h _ hb) hab

/-- A byte is listed as often as it lies in one of the ranges. -/
theorem count_flatMap_bytes (ranges : List CharRange) (byte : UInt8) :
    (ranges.flatMap bytes).count byte = ranges.countP fun range => range.contains byte := by
  induction ranges with
  | nil => rfl
  | cons range rest ih =>
      rw [List.flatMap_cons, List.count_append, ih, range.nodup_bytes.count, List.countP_cons,
        Nat.add_comm]
      simp only [mem_bytes_iff]

/-- The overlap of two character ranges holds the bytes that both hold. -/
theorem any_contains_intersect (a b : CharRange) (byte : UInt8) :
    (a.intersect b).any (fun range => range.contains byte) =
      (a.contains byte && b.contains byte) := by
  unfold intersect
  simp only
  split
  · simp only [contains]
    grind
  · simp only [contains]
    grind

/-- The buckets hold the bytes of the range in order. All but the last have `step` bytes, and the
last has fewer than twice as many. -/
structure CutInto (step : Nat) (range : CharRange) (buckets : List CharRange) : Prop where
  bytes_eq : buckets.flatMap CharRange.bytes = range.bytes
  ordered : ∀ bucket ∈ buckets, bucket.first ≤ bucket.last
  length_eq : buckets.length = max 1 (range.size / step)
  sizes : ∃ front final, buckets = front ++ [final] ∧ (∀ bucket ∈ front, bucket.size = step) ∧
    final.size < 2 * step

end CharRange

namespace Salt

/-- A salt as its readers make it: its ranges are accepted as an alphabet, and none is crossed. -/
structure Valid (salt : Salt) : Prop where
  accepted : ofRanges salt.ranges = .ok salt
  ordered : ∀ range ∈ salt.ranges, range.first ≤ range.last

theorem mem_bytes_iff (salt : Salt) (byte : UInt8) :
    byte ∈ salt.bytes ↔ ∃ range ∈ salt.ranges, range.contains byte = true := by
  simp [bytes, CharRange.mem_bytes_iff]

/-- Where no neighbours overlap, no two ranges do. -/
theorem pairwise_of_overlap?_eq_none {ranges : List CharRange}
    (hordered : ∀ range ∈ ranges, range.first ≤ range.last) (h : overlap? ranges = none) :
    ranges.Pairwise fun a b => a.last < b.first := by
  induction ranges with
  | nil => exact List.Pairwise.nil
  | cons a rest ih =>
      cases rest with
      | nil => exact List.pairwise_singleton _ a
      | cons b rest =>
          have hab : ¬ b.first ≤ a.last := by
            intro hle
            simp [overlap?, hle] at h
          have hnone : overlap? (b :: rest) = none := by simpa [overlap?, hab] using h
          have hrest := ih (fun range hr => hordered range (List.mem_cons_of_mem a hr)) hnone
          rw [UInt8.not_le] at hab
          refine List.pairwise_cons.mpr ⟨?_, hrest⟩
          intro c hc
          rcases List.mem_cons.mp hc with rfl | hc
          · exact hab
          · have hbc : b.last < c.first := List.rel_of_pairwise_cons hrest hc
            have hb : b.first ≤ b.last := hordered b (by simp)
            grind

/-- Where no two ranges overlap, each salt byte lies in one of them, and no other byte in any. -/
theorem countP_contains_of_apart {salt : Salt} (h : salt.ranges.Pairwise CharRange.Apart)
    (byte : UInt8) :
    (salt.ranges.countP fun range => range.contains byte) =
      if byte ∈ salt.bytes then 1 else 0 := by
  rw [← CharRange.count_flatMap_bytes]
  exact (CharRange.nodup_flatMap_bytes h).count

/-- In order, each range of the alphabet ends before the next begins. -/
theorem Valid.pairwise_mergeSort {salt : Salt} (hvalid : salt.Valid) :
    (salt.ranges.mergeSort precedes).Pairwise fun a b => a.last < b.first := by
  obtain ⟨_, hnone, _⟩ := ofRanges_eq_ok_iff.mp hvalid.accepted
  exact pairwise_of_overlap?_eq_none
    (fun range hr => hvalid.ordered range (List.mem_mergeSort.mp hr)) hnone

theorem Valid.pairwise_apart {salt : Salt} (hvalid : salt.Valid) :
    salt.ranges.Pairwise CharRange.Apart := by
  have hsorted : (salt.ranges.mergeSort precedes).Pairwise CharRange.Apart :=
    hvalid.pairwise_mergeSort.imp Or.inl
  exact ((List.mergeSort_perm _ _).pairwise_iff fun h => h.symm).mp hsorted

/-- No salt byte is listed twice. -/
theorem Valid.nodup_bytes {salt : Salt} (hvalid : salt.Valid) : salt.bytes.Nodup :=
  CharRange.nodup_flatMap_bytes hvalid.pairwise_apart

end Salt

namespace Buckets

open CharRange (CutInto count_flatMap_bytes)

variable {step first last count : Nat} {range : CharRange} {ranges buckets : List CharRange}
  {pieces : List (List CharRange)}

/-- The keys of a bucket are those whose first byte it holds. -/
theorem mem_keyRange_iff (bucket : CharRange) (key : Key) :
    key ∈ keyRange bucket ↔ key.head?.any bucket.contains = true := by
  cases key with
  | nil => simp [KeyRange.mem_iff, keyRange]
  | cons byte rest =>
      have hstart : [bucket.first] ≤ byte :: rest ↔ bucket.first ≤ byte := by
        rw [List.cons_le_cons_iff]
        grind [List.nil_le]
      have hstop : (∀ stop ∈ (keyRange bucket).stop, byte :: rest < stop) ↔
          byte ≤ bucket.last := by
        by_cases hlast : bucket.last < 255
        · simp [keyRange, hlast, List.cons_lt_cons_iff, Key.byte_lt_add_one_iff hlast]
        · simp [keyRange, hlast, Key.byte_le_of_not_lt hlast]
      rw [KeyRange.mem_iff, hstop]
      simp [keyRange, hstart, CharRange.contains]

/-! ### Numbers of bytes -/

theorem toByte_toNat (byte : UInt8) : toByte byte.toNat = byte := by
  rw [toByte, if_pos byte.toNat_lt, UInt8.ofNat_toNat]

theorem between_toNat (h : range.first ≤ range.last) :
    between range.first.toNat range.last.toNat = range := by
  rw [between, toByte_toNat, toByte_toNat, CharRange.spanning, if_pos h]

theorem toNat_toByte {n : Nat} (h : n < 256) : (toByte n).toNat = n := by
  rw [toByte, if_pos h]
  exact UInt8.toNat_ofNat_of_lt' h

/-- Numbers of bytes in order are the ends of the range between them. -/
theorem toNat_between (hle : first ≤ last) (hlast : last < 256) :
    (between first last).first.toNat = first ∧ (between first last).last.toNat = last := by
  have hfirst := toNat_toByte (show first < 256 by omega)
  have hbyte := toNat_toByte hlast
  have hspan : toByte first ≤ toByte last := by
    rw [UInt8.le_iff_toNat_le]
    omega
  rw [between, CharRange.spanning, if_pos hspan]
  exact ⟨hfirst, hbyte⟩

theorem first_between_le_last (hle : first ≤ last) (hlast : last < 256) :
    (between first last).first ≤ (between first last).last := by
  obtain ⟨hfirst, hbyte⟩ := toNat_between hle hlast
  rw [UInt8.le_iff_toNat_le, hfirst, hbyte]
  exact hle

theorem size_between (hle : first ≤ last) (hlast : last < 256) :
    (between first last).size = last - first + 1 := by
  obtain ⟨hfirst, hbyte⟩ := toNat_between hle hlast
  rw [CharRange.size, hfirst, hbyte]

theorem bytes_between (hle : first ≤ last) (hlast : last < 256) :
    (between first last).bytes = (List.range' first (last + 1 - first)).map UInt8.ofNat := by
  obtain ⟨hfirst, hbyte⟩ := toNat_between hle hlast
  rw [CharRange.bytes, hfirst, hbyte]

private theorem between_contains (hle : first ≤ last) (hlast : last < 256) (byte : UInt8) :
    (between first last).contains byte = true ↔ first ≤ byte.toNat ∧ byte.toNat ≤ last := by
  obtain ⟨hfirst, hbyte⟩ := toNat_between hle hlast
  rw [CharRange.contains_iff, hfirst, hbyte]

/-! ### One range -/

/-- A range of fewer than two steps is a bucket of its own. -/
theorem cutInto_singleton (h : range.first ≤ range.last) (hshort : range.size < 2 * step) :
    CutInto step range [range] where
  bytes_eq := by simp
  ordered := by simpa using h
  length_eq := by
    have hone : range.size / step < 2 := Nat.div_lt_of_lt_mul (by omega)
    rw [List.length_singleton]
    omega
  sizes := ⟨[], range, rfl, by simp, hshort⟩

/-- A bucket taken off the front of a longer range leaves a full one at least. -/
theorem cutInto_cons (positive : 0 < step) (hlong : first + 2 * step - 1 ≤ last)
    (hlast : last < 256) (h : CutInto step (between (first + step) last) buckets) :
    CutInto step (between first last) (between first (first + step - 1) :: buckets) where
  bytes_eq := by
    have hjoined : last + 1 - first =
        (first + step - 1 + 1 - first) + (last + 1 - (first + step)) := by omega
    rw [List.flatMap_cons, h.bytes_eq, bytes_between (by omega) (by omega),
      bytes_between (by omega) hlast, bytes_between (by omega) hlast, ← List.map_append, hjoined,
      ← List.range'_append_1]
    congr 4
    omega
  ordered := by
    rw [List.forall_mem_cons]
    exact ⟨first_between_le_last (by omega) (by omega), h.ordered⟩
  length_eq := by
    have hsize : last - first + 1 = last - (first + step) + 1 + step := by omega
    have hfull : 0 < (last - (first + step) + 1) / step := Nat.div_pos (by omega) positive
    rw [List.length_cons, h.length_eq, size_between (by omega) hlast, size_between (by omega) hlast,
      hsize, Nat.add_div_right _ positive]
    omega
  sizes := by
    obtain ⟨front, final, rfl, hfront, hfinal⟩ := h.sizes
    refine ⟨between first (first + step - 1) :: front, final, rfl, ?_, hfinal⟩
    rw [List.forall_mem_cons]
    refine ⟨?_, hfront⟩
    rw [size_between (by omega) (by omega)]
    omega

theorem cutInto_cut (positive : 0 < step) (hle : first ≤ last) (hlast : last < 256) :
    CutInto step (between first last) (cut step positive first last) := by
  fun_induction cut step positive first last with
  | case1 first hshort =>
      apply cutInto_singleton (first_between_le_last hle hlast)
      rw [size_between hle hlast]
      omega
  | case2 first hlong ih => exact cutInto_cons positive (by omega) hlast (ih (by omega))

/-- Every byte of a range lies in one of the pieces it is cut into, and no other byte in any. -/
theorem countP_cut (positive : 0 < step) (hle : first ≤ last) (hlast : last < 256) (byte : UInt8) :
    ((cut step positive first last).countP fun bucket => bucket.contains byte) =
      if first ≤ byte.toNat ∧ byte.toNat ≤ last then 1 else 0 := by
  rw [← count_flatMap_bytes, (cutInto_cut positive hle hlast).bytes_eq,
    (CharRange.nodup_bytes _).count]
  simp only [CharRange.mem_bytes_iff, between_contains hle hlast]

/-! ### All ranges -/

theorem step_pos (ranges : List CharRange) (count : Nat) : 0 < Buckets.step ranges count := by
  rw [Buckets.step]
  omega

/-- Partition cuts every range on its own, all by the same size. -/
theorem exists_pieces (hordered : ∀ range ∈ ranges, range.first ≤ range.last)
    (hcount : count ≠ 0) :
    ∃ pieces : List (List CharRange), partition ranges count = .ok pieces.flatten ∧
      List.Forall₂ (CutInto (Buckets.step ranges count)) ranges pieces := by
  refine ⟨_, by rw [partition, if_neg hcount, List.flatMap_def], ?_⟩
  rw [List.forall₂_map_right_iff, List.forall₂_same]
  intro range hrange
  have hle := hordered range hrange
  have hcut := cutInto_cut (step_pos ranges count) (UInt8.le_iff_toNat_le.mp hle)
    range.last.toNat_lt
  rwa [between_toNat hle] at hcut

theorem flatMap_bytes_of_cutInto (h : List.Forall₂ (CutInto step) ranges pieces) :
    pieces.flatten.flatMap CharRange.bytes = ranges.flatMap CharRange.bytes := by
  induction h with
  | nil => rfl
  | cons hrange _ ih =>
      rw [List.flatten_cons, List.flatMap_append, List.flatMap_cons, hrange.bytes_eq, ih]

private theorem countP_le_flatMap_cut (positive : 0 < step) (ranges : List CharRange)
    (byte : UInt8) :
    (ranges.countP fun range => range.contains byte) ≤
      (ranges.flatMap fun range => cut step positive range.first.toNat range.last.toNat).countP
        fun bucket => bucket.contains byte := by
  induction ranges with
  | nil => exact Nat.le_refl 0
  | cons range rest ih =>
      rw [List.flatMap_cons, List.countP_append, List.countP_cons]
      by_cases hcontains : range.contains byte = true
      · have hbyte := (CharRange.contains_iff range byte).mp hcontains
        rw [countP_cut positive (Nat.le_trans hbyte.1 hbyte.2) range.last.toNat_lt byte,
          if_pos hbyte, if_pos hcontains]
        omega
      · rw [if_neg hcontains]
        omega

/-- A byte lies in as many buckets of a list of ranges as it lies in ranges. -/
theorem countP_partition (hordered : ∀ range ∈ ranges, range.first ≤ range.last)
    (h : partition ranges count = .ok buckets) (byte : UInt8) :
    (buckets.countP fun bucket => bucket.contains byte) =
      ranges.countP fun range => range.contains byte := by
  have hcount : count ≠ 0 := by
    rintro rfl
    simp [partition] at h
  obtain ⟨pieces, hok, hpieces⟩ := exists_pieces hordered hcount
  obtain rfl := Except.ok.inj (h.symm.trans hok)
  rw [← count_flatMap_bytes, flatMap_bytes_of_cutInto hpieces, count_flatMap_bytes]

/-- Crossed ranges are cut into buckets too, but none is missing for it. -/
theorem countP_le_countP_partition (h : partition ranges count = .ok buckets) (byte : UInt8) :
    (ranges.countP fun range => range.contains byte) ≤
      buckets.countP fun bucket => bucket.contains byte := by
  rw [partition] at h
  split at h
  · simp at h
  · obtain rfl := Except.ok.inj h
    exact countP_le_flatMap_cut _ ranges byte

/-- Clipping keeps the count of every byte in the window and takes away the others. -/
theorem countP_clip (buckets : List CharRange) (window : CharRange) (byte : UInt8) :
    ((clip buckets window).countP fun bucket => bucket.contains byte) =
      if window.contains byte then buckets.countP fun bucket => bucket.contains byte else 0 := by
  have hcount : ((clip buckets window).countP fun bucket => bucket.contains byte) =
      buckets.countP fun bucket => bucket.contains byte && window.contains byte := by
    rw [clip, List.countP_filterMap]
    apply List.countP_congr
    intro bucket _
    have h := CharRange.any_contains_intersect bucket window byte
    cases hi : bucket.intersect window <;> simp_all
  rw [hcount]
  split <;> simp_all

/-- In how many bucket ranges a key lies is settled by its first byte. -/
theorem coverCount_map_keyRange (buckets : List CharRange) (key : Key) :
    KeyRange.coverCount (buckets.map keyRange) key =
      buckets.countP fun bucket => key.head?.any bucket.contains := by
  rw [KeyRange.coverCount, List.countP_map]
  apply List.countP_congr
  intro bucket _
  simp only [Function.comp_apply, decide_eq_true_eq]
  exact mem_keyRange_iff bucket key

end Buckets

end KeyScan
