import KeyScan.Proofs.Lists
import KeyScan.Proofs.Salt.Buckets
import Mathlib.Tactic.Ring

/-! # Buckets of near-equal size

Ranges that do not overlap are cut into buckets that do not either, and no number on the way is past
the last byte. As all ranges are cut by one rounded size, there are about as many buckets as were
asked for. -/

namespace KeyScan

namespace Buckets

open CharRange

variable {step first last count : Nat} {ranges : List CharRange} {pieces : List (List CharRange)}

/-! ### Ranges apart -/

theorem ordered_of_cutInto (h : List.Forall₂ (CutInto step) ranges pieces) :
    ∀ bucket ∈ pieces.flatten, bucket.first ≤ bucket.last := by
  induction h with
  | nil => simp
  | cons hrange _ ih =>
      rw [List.flatten_cons, List.forall_mem_append]
      exact ⟨hrange.ordered, ih⟩

/-- Buckets are apart exactly if the ranges they are cut from are: both hold the same bytes. -/
theorem pairwise_apart_iff_of_cutInto (h : List.Forall₂ (CutInto step) ranges pieces)
    (hordered : ∀ range ∈ ranges, range.first ≤ range.last) :
    pieces.flatten.Pairwise Apart ↔ ranges.Pairwise Apart := by
  rw [← nodup_flatMap_bytes_iff (ordered_of_cutInto h), ← nodup_flatMap_bytes_iff hordered,
    flatMap_bytes_of_cutInto h]

/-! ### Every bound is a byte -/

/-- The byte of a number, if there is one. -/
def byte? (n : Nat) : Option UInt8 :=
  if n < 256 then some (UInt8.ofNat n) else none

def between? (first last : Nat) : Option CharRange := do
  return spanning (← byte? first) (← byte? last)

/-- Cuts a range where a bound that is no byte leaves no result. -/
def cutInBytes? (step : Nat) (positive : 0 < step) (first last : Nat) :
    Option (List CharRange) := do
  if last < first + 2 * step - 1 then return [← between? first last]
  else
    return (← between? first (first + step - 1)) ::
      (← cutInBytes? step positive (first + step) last)
termination_by last + 1 - first
decreasing_by omega

def partitionInBytes? (ranges : List CharRange) (count : Nat) :
    Option (Except Error (List CharRange)) :=
  if count = 0 then some (.error (.invalidConfig "bucket count must be > 0"))
  else do
    let buckets ← ranges.mapM fun range =>
      cutInBytes? (Buckets.step ranges count) (step_pos ranges count) range.first.toNat
        range.last.toNat
    return .ok buckets.flatten

theorem byte?_eq {n : Nat} (h : n < 256) : byte? n = some (toByte n) := by
  rw [byte?, toByte, if_pos h, if_pos h]

theorem between?_eq (hfirst : first < 256) (hlast : last < 256) :
    between? first last = some (between first last) := by
  simp only [between?, byte?_eq hfirst, byte?_eq hlast, Option.bind_eq_bind, Option.bind_some]
  rfl

/-- All bounds are bytes: a bucket that is not the last of its range ends before the range does. -/
theorem cutInBytes?_eq (positive : 0 < step) (hfirst : first < 256) (hlast : last < 256) :
    cutInBytes? step positive first last = some (cut step positive first last) := by
  fun_induction cut step positive first last with
  | case1 first hshort =>
      rw [cutInBytes?, if_pos hshort, between?_eq hfirst hlast]
      rfl
  | case2 first hlong ih =>
      rw [cutInBytes?, if_neg hlong, between?_eq hfirst (by omega), ih (by omega)]
      rfl

theorem partitionInBytes?_eq (ranges : List CharRange) (count : Nat) :
    partitionInBytes? ranges count = some (partition ranges count) := by
  rw [partitionInBytes?, partition]
  split
  · rfl
  · rw [mapM_eq_some fun range _ =>
      cutInBytes?_eq (step_pos ranges count) range.first.toNat_lt range.last.toNat_lt]
    rfl

/-- Each range is cut into buckets of the rounded size, of which the last takes what remains. All
bounds are bytes, and the buckets together hold the bytes of the alphabet in its order. They are
apart from each other exactly if the ranges are. -/
theorem partition_exact_cover (hordered : ∀ range ∈ ranges, range.first ≤ range.last)
    (hcount : 0 < count) :
    ∃ pieces : List (List CharRange),
      partition ranges count = .ok pieces.flatten ∧
        partitionInBytes? ranges count = some (.ok pieces.flatten) ∧
        List.Forall₂ (CutInto (Buckets.step ranges count)) ranges pieces ∧
        pieces.flatten.flatMap CharRange.bytes = (Salt.mk ranges).bytes ∧
        (pieces.flatten.Pairwise Apart ↔ ranges.Pairwise Apart) := by
  obtain ⟨pieces, hok, hpieces⟩ := exists_pieces hordered (Nat.ne_of_gt hcount)
  refine ⟨pieces, hok, ?_, hpieces, flatMap_bytes_of_cutInto hpieces,
    pairwise_apart_iff_of_cutInto hpieces hordered⟩
  rw [partitionInBytes?_eq, hok]

/-- The last seven bytes and three letters. -/
def lateAndLetters : List CharRange := [⟨249, 255⟩, ⟨97, 99⟩]

/-- Ten bytes in four buckets are two and a half each, which rounds to two. -/
theorem partition_exact_cover_lateAndLetters :
    ∃ pieces : List (List CharRange),
      partition lateAndLetters 4 = .ok pieces.flatten ∧
        partitionInBytes? lateAndLetters 4 = some (.ok pieces.flatten) ∧
        List.Forall₂ (CutInto 2) lateAndLetters pieces ∧
        pieces.flatten.flatMap CharRange.bytes =
          [249, 250, 251, 252, 253, 254, 255, 97, 98, 99] ∧
        pieces.flatten.Pairwise Apart := by
  obtain ⟨pieces, hok, hbytes, hpieces, hcover, hapart⟩ :=
    @partition_exact_cover 4 lateAndLetters (by decide) (by decide)
  refine ⟨pieces, hok, hbytes, hpieces, ?_, hapart.mpr (by decide)⟩
  rw [hcover]
  decide

/-- What is left of a range goes to its last bucket. -/
example : partition [⟨249, 255⟩, ⟨97, 99⟩] 4 =
    .ok [⟨249, 250⟩, ⟨251, 252⟩, ⟨253, 255⟩, ⟨97, 99⟩] := by
  cbv

/-! ### The number of buckets -/

theorem length_le_of_cutInto (h : List.Forall₂ (CutInto step) ranges pieces) :
    ranges.length ≤ pieces.flatten.length := by
  induction h with
  | nil => simp
  | cons hrange _ ih =>
      rw [List.flatten_cons, List.length_cons, List.length_append, hrange.length_eq]
      omega

/-- All buckets but one of each range are full. -/
theorem mul_length_le_of_cutInto (h : List.Forall₂ (CutInto step) ranges pieces) :
    step * pieces.flatten.length ≤ step * ranges.length + totalSize ranges := by
  induction h with
  | nil => simp
  | @cons range buckets _ _ hrange _ ih =>
      have hfull : step * (range.size / step) ≤ range.size := Nat.mul_div_le _ _
      have hbuckets : step * buckets.length ≤ step + range.size := by
        rw [hrange.length_eq, ← Nat.mul_max_mul_left]
        omega
      rw [List.flatten_cons, List.length_append, Nat.mul_add, List.length_cons, Nat.mul_succ,
        totalSize]
      omega

end Buckets

/-- Rounding takes at most a half off. -/
theorem Double.two_mul_le_roundHalfEven (num : Nat) {den : Nat} (h : 0 < den) :
    2 * num ≤ (2 * roundHalfEven num den + 1) * den := by
  have hdivision : den * (num / den) + num % den = num := Nat.div_add_mod num den
  have hrest : num % den < den := Nat.mod_lt num h
  rw [roundHalfEven]
  split
  · grind
  · split <;> grind

namespace Buckets

variable {count : Nat} {ranges : List CharRange}

/-- The size of a bucket is at least two thirds of the average: rounding takes off a half at most,
and what it leaves is one or more. -/
theorem two_mul_totalSize_le (ranges : List CharRange) (hcount : 0 < count) :
    2 * CharRange.totalSize ranges ≤ step ranges count * (3 * count) := by
  have hround := Double.two_mul_le_roundHalfEven (CharRange.totalSize ranges) hcount
  have hthree : 2 * Double.roundHalfEven (CharRange.totalSize ranges) count + 1 ≤
      3 * step ranges count := by
    rw [step]
    omega
  calc 2 * CharRange.totalSize ranges
      ≤ (2 * Double.roundHalfEven (CharRange.totalSize ranges) count + 1) * count := hround
    _ ≤ 3 * step ranges count * count := Nat.mul_le_mul_right count hthree
    _ = step ranges count * (3 * count) := by ring

/-- Each range has a bucket, and there are no more buckets than one for each range and half as many
again as were asked for. -/
theorem partition_keeps_to_target (hordered : ∀ range ∈ ranges, range.first ≤ range.last)
    (hcount : 0 < count) :
    ∃ pieces : List (List CharRange),
      partition ranges count = .ok pieces.flatten ∧
        List.Forall₂
          (fun range buckets => buckets ≠ [] ∧ buckets.flatMap CharRange.bytes = range.bytes)
          ranges pieces ∧
        ranges.length ≤ pieces.flatten.length ∧
        2 * pieces.flatten.length ≤ 3 * count + 2 * ranges.length := by
  obtain ⟨pieces, hok, hpieces⟩ := exists_pieces hordered (Nat.ne_of_gt hcount)
  refine ⟨pieces, hok, hpieces.imp ?_, length_le_of_cutInto hpieces, ?_⟩
  · intro range buckets hrange
    refine ⟨?_, hrange.bytes_eq⟩
    rw [← List.length_pos_iff, hrange.length_eq]
    omega
  · have hlength := mul_length_le_of_cutInto hpieces
    have htotal := two_mul_totalSize_le ranges hcount
    apply Nat.le_of_mul_le_mul_left _ (step_pos ranges count)
    calc step ranges count * (2 * pieces.flatten.length)
        = 2 * (step ranges count * pieces.flatten.length) := by ring
      _ ≤ 2 * (step ranges count * ranges.length + CharRange.totalSize ranges) :=
          Nat.mul_le_mul_left 2 hlength
      _ ≤ step ranges count * (3 * count) + 2 * (step ranges count * ranges.length) := by omega
      _ = step ranges count * (3 * count + 2 * ranges.length) := by ring

/-- Ten bytes for seven buckets are cut one by one. -/
theorem partition_keeps_to_target_lateAndLetters :
    ∃ pieces : List (List CharRange),
      partition lateAndLetters 7 = .ok pieces.flatten ∧
        List.Forall₂
          (fun range buckets => buckets ≠ [] ∧ buckets.flatMap CharRange.bytes = range.bytes)
          lateAndLetters pieces ∧
        2 ≤ pieces.flatten.length ∧ 2 * pieces.flatten.length ≤ 25 :=
  @partition_keeps_to_target 7 lateAndLetters (by decide) (by decide)

end Buckets

end KeyScan
