import KeyScan.Planning.KeyBounds
import KeyScan.Proofs.Key.Overlap
import KeyScan.Salt.Buckets

/-! # Clipping buckets

Buckets are clipped by their bytes before they are narrowed to bounds by keys. An end of a bucket
that clipping moves lies beyond an end of the bounds, and narrowing moves it there in any case. A
bucket that clipping drops would be crossed. -/

namespace KeyScan

/-! ### Windows of first bytes -/

namespace KeyBounds

/-- The first byte of the window of the bounds. -/
def firstByte (bounds : KeyBounds) : UInt8 :=
  (bounds.lower.bind List.head?).getD 0

/-- The last byte of the window. There is none if the bounds end before every key. -/
def lastByte? (bounds : KeyBounds) : Option UInt8 :=
  match bounds.upper with
  | none => some 255
  | some key => key.head?

theorem firstByteWindow_eq (bounds : KeyBounds) :
    bounds.firstByteWindow = bounds.lastByte?.bind fun last =>
      if bounds.firstByte ≤ last then some ⟨bounds.firstByte, last⟩ else none := by
  rw [firstByteWindow, lastByte?, firstByte]
  cases bounds.upper with
  | none => rfl
  | some key => cases key <;> rfl

end KeyBounds

namespace CharRange

/-- The bytes that both ranges hold, as a range that is crossed where there are none. -/
def meet (a b : CharRange) : CharRange :=
  ⟨if a.first < b.first then b.first else a.first, if b.last < a.last then b.last else a.last⟩

theorem intersect_eq (a b : CharRange) :
    a.intersect b = if (a.meet b).first ≤ (a.meet b).last then some (a.meet b) else none :=
  rfl

/-- Nothing meets a crossed range. -/
theorem last_meet_lt_first {b : CharRange} (h : b.last < b.first) (a : CharRange) :
    (a.meet b).last < (a.meet b).first := by
  simp only [meet]
  grind

end CharRange

/-! ### Clipped buckets -/

namespace Buckets

open KeyRange

variable {bounds : KeyBounds} {first last byte : UInt8}

/-- A lower bound that begins with the first byte of a bucket or a later one takes its place. -/
theorem tighter_larger_first (h : first ≤ byte) (rest : Key) :
    tighter Key.larger (some [first]) (some (byte :: rest)) = some (byte :: rest) := by
  have hle : [first] ≤ byte :: rest := by
    rw [List.cons_le_cons_iff]
    grind [List.nil_le]
  simp only [tighter, Key.larger, Option.some.injEq]
  split <;> grind

/-- An upper bound that begins with the last byte of a bucket or an earlier one takes its place. -/
theorem tighter_smaller_stop (h : byte ≤ last) (rest : Key) :
    tighter Key.smaller (keyRange ⟨first, last⟩).stop (some (byte :: rest)) =
      some (byte :: rest) := by
  by_cases hlast : last < 255
  · have hlt : byte :: rest < [last + 1] :=
      List.cons_lt_cons_iff.mpr (Or.inl ((Key.byte_lt_add_one_iff hlast).mpr h))
    simp [keyRange, hlast, tighter, Key.smaller, hlt]
  · simp [keyRange, hlast, tighter]

/-- Clipping moves the first byte of a bucket only where the lower bound takes its place. -/
theorem tighter_larger_clipped (bounds : KeyBounds) (first : UInt8) :
    tighter Key.larger (some [if first < bounds.firstByte then bounds.firstByte else first])
        bounds.lower = tighter Key.larger (some [first]) bounds.lower := by
  by_cases hmoved : first < bounds.firstByte
  · rw [if_pos hmoved]
    obtain ⟨_ | _ | ⟨byte, rest⟩, upper⟩ := bounds
    · simp [KeyBounds.firstByte] at hmoved
    · simp [KeyBounds.firstByte] at hmoved
    · exact (tighter_larger_first (Std.le_refl byte) rest).trans
        (tighter_larger_first (Std.le_of_lt hmoved) rest).symm
  · rw [if_neg hmoved]

/-- Clipping moves the last byte of a bucket only where the upper bound takes its place. -/
theorem tighter_smaller_clipped (h : bounds.lastByte? = some byte) (first last : UInt8) :
    tighter Key.smaller (keyRange ⟨first, if byte < last then byte else last⟩).stop bounds.upper =
      tighter Key.smaller (keyRange ⟨first, last⟩).stop bounds.upper := by
  by_cases hmoved : byte < last
  · rw [if_pos hmoved]
    obtain ⟨lower, _ | _ | ⟨head, rest⟩⟩ := bounds
    · obtain rfl : 255 = byte := Option.some.inj h
      exact absurd hmoved (UInt8.not_lt.mpr (Key.byte_le_of_not_lt (by decide)))
    · simp [KeyBounds.lastByte?] at h
    · obtain rfl : head = byte := Option.some.inj h
      exact (tighter_smaller_stop (Std.le_refl head) rest).trans
        (tighter_smaller_stop (Std.le_of_lt hmoved) rest).symm
  · rw [if_neg hmoved]

/-- A clipped bucket shares the same keys with the bounds, by the same ends. -/
theorem intersect_meet (h : bounds.lastByte? = some byte) (bucket : CharRange) :
    (keyRange (bucket.meet ⟨bounds.firstByte, byte⟩)).intersect bounds.keyRange =
      (keyRange bucket).intersect bounds.keyRange :=
  intersect_congr (tighter_larger_clipped bounds bucket.first)
    (tighter_smaller_clipped h bucket.first bucket.last)

/-- A crossed bucket shares nothing with any bounds. -/
theorem intersect_eq_none_of_crossed {bucket : CharRange} (h : bucket.last < bucket.first)
    (range : KeyRange) : (keyRange bucket).intersect range = none := by
  have hlast : bucket.last < 255 := by
    have hfirst : bucket.first ≤ 255 := Key.byte_le_of_not_lt (by decide)
    grind
  have hnext : bucket.last + 1 ≤ bucket.first := by
    rw [← UInt8.not_lt, Key.byte_lt_add_one_iff hlast, UInt8.not_le]
    exact h
  refine intersect_eq_none rfl (if_pos hlast) ?_ range
  rw [List.cons_le_cons_iff]
  grind [List.nil_le]

/-- What a bucket shares with the bounds is what the clipped bucket does. -/
theorem bind_intersect_window (bounds : KeyBounds) (bucket : CharRange) :
    (bounds.firstByteWindow.bind bucket.intersect).bind
        (fun clipped => (keyRange clipped).intersect bounds.keyRange) =
      (keyRange bucket).intersect bounds.keyRange := by
  rw [KeyBounds.firstByteWindow_eq]
  cases hlast : bounds.lastByte? with
  | none =>
      have hupper : bounds.upper = some [] := by
        rw [KeyBounds.lastByte?] at hlast
        rcases hupper : bounds.upper with _ | _ | ⟨head, rest⟩ <;> simp_all
      rw [KeyBounds.keyRange, hupper]
      exact (intersect_stop_nil rfl bounds.lower).symm
  | some byte =>
      rw [← intersect_meet hlast]
      by_cases hwindow : bounds.firstByte ≤ byte
      · rw [Option.bind_some, if_pos hwindow, Option.bind_some, CharRange.intersect_eq]
        split
        · rfl
        · rename_i hcrossed
          exact (intersect_eq_none_of_crossed (UInt8.not_le.mp hcrossed) _).symm
      · rw [Option.bind_some, if_neg hwindow]
        exact (intersect_eq_none_of_crossed
          (CharRange.last_meet_lt_first (UInt8.not_le.mp hwindow) bucket) _).symm

/-- Clipping buckets to the window of the bounds does not change what is left of them: narrowed to
the bounds, the clipped buckets give the same ranges as all buckets, end by end. -/
theorem narrow_clip (buckets : List CharRange) (bounds : KeyBounds) :
    ((match bounds.firstByteWindow with
      | some window => clip buckets window
      | none => []).map keyRange).filterMap
        (fun range : KeyRange => range.intersect bounds.keyRange) =
      (buckets.map keyRange).filterMap fun range => range.intersect bounds.keyRange := by
  have hbucket := bind_intersect_window bounds
  rw [List.filterMap_map, List.filterMap_map]
  cases hwindow : bounds.firstByteWindow with
  | none =>
      simp only [hwindow, Option.bind_none] at hbucket
      exact (List.filterMap_eq_nil_iff.mpr fun bucket _ => (hbucket bucket).symm).symm
  | some window =>
      simp only [hwindow, Option.bind_some] at hbucket
      simp only [clip, List.filterMap_filterMap]
      exact congrArg (List.filterMap · buckets) (funext hbucket)

end Buckets

end KeyScan
