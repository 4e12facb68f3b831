import KeyScan.Proofs.Key.Overlap
import KeyScan.Proofs.Planning.KeyBounds

/-! # Overlaps as meets

The overlap of ranges holds the keys that all of them hold, and it is the same in whatever order they are
taken, where there is none included. Bounds that a range cannot state are stated by a successor. -/

namespace KeyScan.KeyRange

theorem exists_mem_intersect_iff {a b : KeyRange} {key : Key} :
    (∃ range, a.intersect b = some range ∧ key ∈ range) ↔ key ∈ a ∧ key ∈ b := by
  constructor
  · rintro ⟨range, hrange, hkey⟩
    exact (mem_iff_of_intersect hrange key).mp hkey
  · rintro ⟨ha, hb⟩
    exact exists_mem_intersect ha hb

theorem mem_startKey_iff {c : Condition} (h : c.operator.isLowerBound = true) (key : Key) :
    key ∈ (⟨some (KeyBounds.startKey c), none⟩ : KeyRange) ↔ c.AdmitsKey key := by
  rw [Condition.admitsKey_iff_startKey_le h, mem_iff]
  simp

theorem mem_stopKey_iff {c : Condition} (h : c.operator.isUpperBound = true) (key : Key) :
    key ∈ (⟨none, some (KeyBounds.stopKey c)⟩ : KeyRange) ↔ c.AdmitsKey key := by
  rw [Condition.admitsKey_iff_lt_stopKey h, mem_iff]
  simp

/-- The overlap of ranges is their meet: it holds the keys that both hold, in either order, and of three
ranges any two may be taken first, with the same overlap or without one. The successor of a key is the
first key past it, so the ends made of row-key conditions admit the keys that the conditions admit. -/
theorem intersect_is_meet (a b c : KeyRange) (key bound : Key) :
    ((∃ range, a.intersect b = some range ∧ key ∈ range) ↔ key ∈ a ∧ key ∈ b) ∧
      a.intersect b = b.intersect a ∧
      (a.intersect b).bind (fun range => range.intersect c) = (b.intersect c).bind a.intersect ∧
      (a.intersect b).bind (fun range => range.intersect c) =
        (a.intersect c).bind (fun range => range.intersect b) ∧
      (bound < key ↔ bound.successor ≤ key) ∧
      (∀ low : Condition, low.operator.isLowerBound = true →
        (key ∈ (⟨some (KeyBounds.startKey low), none⟩ : KeyRange) ↔ low.AdmitsKey key)) ∧
      ∀ high : Condition, high.operator.isUpperBound = true →
        (key ∈ (⟨none, some (KeyBounds.stopKey high)⟩ : KeyRange) ↔ high.AdmitsKey key) :=
  ⟨exists_mem_intersect_iff, intersect_comm a b, intersect_assoc a b c, intersect_right_comm a b c,
    (Key.successor_le_iff key bound).symm, fun _ hlow => mem_startKey_iff hlow key,
    fun _ hhigh => mem_stopKey_iff hhigh key⟩

/-- Titles after `b`. -/
def titlesAfterB : Condition := ⟨"title", .gt, .varchar "b", .varchar⟩

/-- Titles up to `m`. -/
def titlesUpToM : Condition := ⟨"title", .le, .varchar "m", .varchar⟩

/-- The titles before `m` and those from `b` on overlap, and no title from `m` on is in the overlap,
whichever two are taken first. The ends made of the two conditions hold the first title after `b`. -/
theorem intersect_is_meet_titles :
    KeyRange.intersect ⟨none, some [109]⟩ ⟨some [98], none⟩ = some ⟨some [98], some [109]⟩ ∧
      (KeyRange.intersect ⟨none, some [109]⟩ ⟨some [98], none⟩).bind
        (fun range => range.intersect ⟨some [109], none⟩) = none ∧
      (KeyRange.intersect ⟨some [98], none⟩ ⟨some [109], none⟩).bind
        (KeyRange.intersect ⟨none, some [109]⟩) = none ∧
      titlesAfterB.operator.isLowerBound = true ∧ titlesUpToM.operator.isUpperBound = true ∧
      [98, 0] ∈ (⟨some (KeyBounds.startKey titlesAfterB), none⟩ : KeyRange) ∧
      titlesAfterB.AdmitsKey [98, 0] ∧
      [98, 0] ∈ (⟨none, some (KeyBounds.stopKey titlesUpToM)⟩ : KeyRange) ∧
      titlesUpToM.AdmitsKey [98, 0] := by
  obtain ⟨_, _, horder, _, _, hlow, hhigh⟩ :=
    intersect_is_meet ⟨none, some [109]⟩ ⟨some [98], none⟩ ⟨some [109], none⟩ [98, 0] [98]
  have hnone : (KeyRange.intersect ⟨none, some [109]⟩ ⟨some [98], none⟩).bind
      (fun range => range.intersect ⟨some [109], none⟩) = none := by decide
  have hstart : [98, 0] ∈ (⟨some (KeyBounds.startKey titlesAfterB), none⟩ : KeyRange) := by decide
  have hstop : [98, 0] ∈ (⟨none, some (KeyBounds.stopKey titlesUpToM)⟩ : KeyRange) := by decide
  exact ⟨by decide, hnone, horder.symm.trans hnone, rfl, rfl, hstart,
    (hlow titlesAfterB rfl).mp hstart, hstop, (hhigh titlesUpToM rfl).mp hstop⟩

end KeyScan.KeyRange
