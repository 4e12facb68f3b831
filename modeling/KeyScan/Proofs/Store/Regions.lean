import KeyScan.Proofs.Key.Range
import KeyScan.Proofs.Store.Runs

/-! # Regions of a snapshot

The regions between ascending split points hold every key once. Stale entries of the manifest are not
among the live regions. -/

namespace KeyScan

theorem Region.mem_keyRange_iff (region : Region) (key : Key) :
    key ∈ region.keyRange ↔
      region.startKey ≤ key ∧ (region.stopKey = [] ∨ key < region.stopKey) := by
  have hstart : (∀ start ∈ Region.boundary region.startKey, start ≤ key) ↔
      region.startKey ≤ key := by
    rw [Region.boundary]
    split
    · rename_i hempty
      simp [hempty]
    · simp
  have hstop : (∀ stop ∈ Region.boundary region.stopKey, key < stop) ↔
      region.stopKey = [] ∨ key < region.stopKey := by
    rw [Region.boundary]
    split
    · rename_i hempty
      simp [hempty]
    · rename_i hbound
      simp [hbound]
  rw [KeyRange.mem_iff, ← hstart, ← hstop]
  rfl

namespace Store

/-- From a boundary on, the regions cut at split points past it hold each key once. -/
theorem coverCount_regionsFrom {table : String} {index : Nat} {start : Key} {points : List Key}
    (hpast : ∀ point ∈ points, start < point) (hascending : points.Pairwise fun a b => a < b)
    (key : Key) :
    KeyRange.coverCount ((regionsFrom table index start points).map Region.keyRange) key =
      if start ≤ key then 1 else 0 := by
  induction points generalizing index start with
  | nil =>
      simp [regionsFrom, KeyRange.coverCount, Region.mem_keyRange_iff, List.countP_cons]
  | cons point rest ih =>
      obtain ⟨hhead, htail⟩ := List.pairwise_cons.mp hascending
      have hpoint : start < point := hpast point (by simp)
      have hbound : point ≠ [] := by
        rintro rfl
        simp at hpoint
      have hrest : KeyRange.coverCount
          ((regionsFrom table (index + 1) point rest).map Region.keyRange) key =
            if point ≤ key then 1 else 0 := ih hhead htail
      rw [KeyRange.coverCount] at hrest ⊢
      rw [regionsFrom, List.map_cons, List.countP_cons, hrest]
      simp only [Region.mem_keyRange_iff, hbound, false_or, decide_eq_true_eq]
      -- Before the split point a key is in this region alone, from it on in one of the others.
      by_cases hkey : key < point
      · have hnot : ¬ point ≤ key := List.not_le.mpr hkey
        simp [hkey, hnot]
      · have hle : point ≤ key := List.not_lt.mp hkey
        have hstart : start ≤ key := Std.le_of_lt (Std.lt_of_lt_of_le hpoint hle)
        simp [hkey, hle, hstart]

theorem isStale_of_mem_regionsFrom {table : String} {index : Nat} {start : Key}
    {points : List Key} {region : Region} (h : region ∈ regionsFrom table index start points) :
    region.isStale = false := by
  induction points generalizing index start with
  | nil =>
      rw [regionsFrom, List.mem_singleton] at h
      rw [h]
      rfl
  | cons point rest ih =>
      rw [regionsFrom] at h
      rcases List.mem_cons.mp h with rfl | hrest
      · rfl
      · exact ih hrest

/-- Where the added manifest entries are stale, the live regions are those between the split
points. -/
theorem filter_regionsOf {name : String} {stored : StoredTable}
    (h : ∀ region ∈ stored.extraRegions, region.isStale = true) :
    ((regionsOf name stored).filter fun region => !region.isStale) =
      regionsFrom name 0 [] stored.splitPoints := by
  have hlive : ((regionsFrom name 0 [] stored.splitPoints).filter fun region =>
      !region.isStale) = regionsFrom name 0 [] stored.splitPoints := by
    rw [List.filter_eq_self]
    intro region hregion
    simp [isStale_of_mem_regionsFrom hregion]
  have hstale : (stored.extraRegions.filter fun region => !region.isStale) = [] := by
    rw [List.filter_eq_nil_iff]
    intro region hregion
    simp [h region hregion]
  rw [regionsOf, List.filter_append, hlive, hstale, List.append_nil]

/-- The split points of a table in order are past the empty key. -/
theorem nil_lt_of_mem_splitPoints {stored : StoredTable} (h : stored.WellFormed) :
    ∀ point ∈ stored.splitPoints, ([] : Key) < point := by
  intro point hpoint
  cases point with
  | nil => exact absurd rfl (h.bounding [] hpoint)
  | cons byte rest => exact List.nil_lt_cons byte rest

/-- The regions between the split points of a table in order hold each key once. -/
theorem coverCount_liveRegions {stored : StoredTable} (h : stored.WellFormed) (name : String)
    (key : Key) :
    KeyRange.coverCount ((regionsFrom name 0 [] stored.splitPoints).map Region.keyRange) key =
      1 := by
  rw [coverCount_regionsFrom (nil_lt_of_mem_splitPoints h) h.ascending,
    if_pos (List.nil_le key)]

end Store

end KeyScan
