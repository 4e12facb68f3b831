import KeyScan.Key.Range

/-! # Ranges as sets of keys

Every construction on ranges is described by the keys it admits, so that no later proof compares
ends of ranges. -/

namespace KeyScan

namespace Key

/-! ### Successors -/

theorem lt_successor_iff (key bound : Key) : key < bound.successor ↔ key ≤ bound := by
  induction bound generalizing key with
  | nil =>
      cases key with
      | nil => simp [successor]
      | cons byte rest => simp [successor, List.cons_lt_cons_iff]
  | cons first bound ih =>
      cases key with
      | nil => simp [successor]
      | cons byte rest =>
          have htail := ih rest
          simp only [successor, List.cons_append] at htail ⊢
          rw [List.cons_lt_cons_iff, List.cons_le_cons_iff, htail]

theorem successor_le_iff (key bound : Key) : bound.successor ≤ key ↔ bound < key := by
  rw [← List.not_lt, lt_successor_iff, List.not_le]

theorem byte_lt_add_one_iff {byte bound : UInt8} (h : bound < 255) :
    byte < bound + 1 ↔ byte ≤ bound := by
  have hbound : bound.toNat < 255 := UInt8.lt_iff_toNat_lt.mp h
  have hnext : (bound + 1).toNat = bound.toNat + 1 := by
    rw [UInt8.toNat_add]
    change (bound.toNat + 1) % 256 = bound.toNat + 1
    omega
  rw [UInt8.lt_iff_toNat_lt, UInt8.le_iff_toNat_le, hnext]
  omega

theorem byte_le_of_not_lt {byte bound : UInt8} (h : ¬ bound < 255) : byte ≤ bound := by
  have hbound : ¬ bound.toNat < 255 := fun hlt => h (UInt8.lt_iff_toNat_lt.mpr hlt)
  have hbyte := byte.toNat_lt
  rw [UInt8.le_iff_toNat_le]
  omega

theorem le_of_prefix {front key : Key} (h : front <+: key) : front ≤ key := by
  induction front generalizing key with
  | nil => exact List.nil_le key
  | cons byte front ih =>
      obtain ⟨rest, rfl⟩ := h
      rw [List.cons_append, List.cons_le_cons_iff]
      exact Or.inr ⟨rfl, ih ⟨rest, rfl⟩⟩

/-- The keys before the successor of a prefix are those before the prefix and those that start
with it. Where there is no successor, that is every key. -/
theorem lt_prefixSuccessor_iff (key front : Key) :
    (∀ stop ∈ front.prefixSuccessor, key < stop) ↔ key < front ∨ front <+: key := by
  induction front generalizing key with
  | nil => simp [prefixSuccessor]
  | cons byte front ih =>
      cases key with
      | nil =>
          cases hs : prefixSuccessor front with
          | some next => simp [prefixSuccessor, hs]
          | none => by_cases hb : byte < 255 <;> simp [prefixSuccessor, hs, hb]
      | cons first rest =>
          have htail := ih rest
          rw [List.cons_lt_cons_iff, List.cons_prefix_cons]
          cases hs : prefixSuccessor front with
          | some next =>
              have hnext : rest < next ↔ rest < front ∨ front <+: rest := by
                simpa [hs] using htail
              have hstop : (∀ stop ∈ prefixSuccessor (byte :: front), first :: rest < stop) ↔
                  first < byte ∨ first = byte ∧ rest < next := by
                simp [prefixSuccessor, hs, List.cons_lt_cons_iff]
              rw [hstop, hnext]
              grind
          | none =>
              have hall : rest < front ∨ front <+: rest := by simpa [hs] using htail
              by_cases hb : byte < 255
              · have hstop : (∀ stop ∈ prefixSuccessor (byte :: front), first :: rest < stop) ↔
                    first < byte + 1 := by
                  simp [prefixSuccessor, hs, hb, List.cons_lt_cons_iff]
                rw [hstop, byte_lt_add_one_iff hb]
                grind
              · have hfirst : first ≤ byte := byte_le_of_not_lt hb
                have hnone : prefixSuccessor (byte :: front) = none := by
                  simp [prefixSuccessor, hs, hb]
                simp only [hnone, Option.not_mem_none, false_implies, implies_true, true_iff]
                grind

/-! ### Keys with a common front -/

theorem append_lt_append_iff (front a b : Key) : front ++ a < front ++ b ↔ a < b := by
  induction front with
  | nil => rfl
  | cons byte front ih => simpa [List.cons_lt_cons_iff] using ih

theorem append_le_append_iff (front a b : Key) : front ++ a ≤ front ++ b ↔ a ≤ b := by
  rw [← List.not_lt, append_lt_append_iff, List.not_lt]

/-- Keys of one length stay in their order however they go on. -/
theorem append_lt_append_of_lt {a b : Key} (hlength : a.length = b.length) (h : a < b)
    (x y : Key) : a ++ x < b ++ y := by
  induction a generalizing b with
  | nil =>
      cases b with
      | nil => simp at h
      | cons second b => simp at hlength
  | cons first a ih =>
      cases b with
      | nil => simp at hlength
      | cons second b =>
          rw [List.cons_lt_cons_iff] at h
          rw [List.cons_append, List.cons_append, List.cons_lt_cons_iff]
          rcases h with hbyte | ⟨rfl, h⟩
          · exact Or.inl hbyte
          · exact Or.inr ⟨rfl, ih (by simpa using hlength) h⟩

/-- A key between two keys with a common front has that front. -/
theorem prefix_of_between {front a b key : Key} (hle : front ++ a ≤ key)
    (hlt : key < front ++ b) : front <+: key := by
  induction front generalizing key with
  | nil => exact List.nil_prefix
  | cons byte front ih =>
      cases key with
      | nil => simp at hle
      | cons first rest =>
          rw [List.cons_append, List.cons_le_cons_iff] at hle
          rw [List.cons_append, List.cons_lt_cons_iff] at hlt
          rcases hle with hbyte | ⟨rfl, hle⟩
          · grind
          · rcases hlt with hbyte | ⟨_, hlt⟩
            · grind
            · rw [List.cons_prefix_cons]
              exact ⟨rfl, ih hle hlt⟩

end Key

namespace KeyRange

/-! ### Membership -/

theorem mem_iff {range : KeyRange} {key : Key} :
    key ∈ range ↔ (∀ start ∈ range.start, start ≤ key) ∧ ∀ stop ∈ range.stop, key < stop :=
  Iff.rfl

@[simp] theorem mem_unbounded (key : Key) : key ∈ unbounded := by
  simp [mem_iff, unbounded]

/-- A key from the start of a range on and up to one of its keys lies in the range. -/
theorem mem_of_le {range : KeyRange} {key first : Key} (hkey : key ∈ range)
    (hstart : ∀ start ∈ range.start, start ≤ first) (hle : first ≤ key) : first ∈ range :=
  mem_iff.mpr ⟨hstart, fun stop hstop => Std.lt_of_le_of_lt hle ((mem_iff.mp hkey).2 stop hstop)⟩

/-- `prefixed` holds exactly the keys with the prefix. -/
theorem mem_prefixed (front key : Key) : key ∈ prefixed front ↔ front <+: key := by
  rw [mem_iff, prefixed, Key.lt_prefixSuccessor_iff]
  simp only [Option.mem_some_iff, forall_eq']
  constructor
  · rintro ⟨hle, hlt | hprefix⟩
    · exact absurd hlt (List.not_lt.mpr hle)
    · exact hprefix
  · intro hprefix
    exact ⟨Key.le_of_prefix hprefix, Or.inr hprefix⟩

theorem larger_le_iff (a b key : Key) : Key.larger a b ≤ key ↔ a ≤ key ∧ b ≤ key := by
  rw [Key.larger]
  split <;> grind

theorem smaller_le (a b : Key) : Key.smaller a b ≤ a ∧ Key.smaller a b ≤ b := by
  rw [Key.smaller]
  split <;> grind

private theorem lt_smaller_iff (a b key : Key) : key < Key.smaller a b ↔ key < a ∧ key < b := by
  rw [Key.smaller]
  split <;> grind

private theorem tighter_larger_le_iff (a b : Option Key) (key : Key) :
    (∀ start ∈ tighter Key.larger a b, start ≤ key) ↔
      (∀ start ∈ a, start ≤ key) ∧ ∀ start ∈ b, start ≤ key := by
  cases a <;> cases b <;> simp [tighter, larger_le_iff]

private theorem lt_tighter_smaller_iff (a b : Option Key) (key : Key) :
    (∀ stop ∈ tighter Key.smaller a b, key < stop) ↔
      (∀ stop ∈ a, key < stop) ∧ ∀ stop ∈ b, key < stop := by
  cases a <;> cases b <;> simp [tighter, lt_smaller_iff]

private theorem not_mem_of_isCrossed {range : KeyRange} (h : range.isCrossed) (key : Key) :
    key ∉ range := by
  obtain ⟨start, stop⟩ := range
  intro hmem
  cases start <;> cases stop <;> simp [isCrossed, mem_iff] at h hmem
  grind

/-- A key lies in the overlap of two ranges when it lies in both; where there is no overlap, it lies
in at most one. -/
theorem any_mem_intersect (a b : KeyRange) (key : Key) :
    (a.intersect b).any (fun range => key ∈ range) = decide (key ∈ a ∧ key ∈ b) := by
  have hboth : key ∈ (⟨tighter Key.larger a.start b.start, tighter Key.smaller a.stop b.stop⟩ :
      KeyRange) ↔ key ∈ a ∧ key ∈ b := by
    simp only [mem_iff, tighter_larger_le_iff, lt_tighter_smaller_iff]
    grind
  unfold intersect
  simp only
  split
  · rename_i hcrossed
    have hout := not_mem_of_isCrossed hcrossed key
    rw [hboth] at hout
    simpa using hout
  · simp only [Option.any_some, hboth]

theorem exists_mem_intersect {a b : KeyRange} {key : Key} (ha : key ∈ a) (hb : key ∈ b) :
    ∃ range, a.intersect b = some range ∧ key ∈ range := by
  have h := any_mem_intersect a b key
  simp only [ha, hb, and_self, decide_true, Option.any_eq_true, decide_eq_true_eq] at h
  exact h

/-! ### Counting the ranges of a list that hold a key -/

/-- In how many of the ranges a key lies. -/
def coverCount (ranges : List KeyRange) (key : Key) : Nat :=
  ranges.countP fun range => key ∈ range

theorem coverCount_pos_iff {ranges : List KeyRange} {key : Key} :
    0 < coverCount ranges key ↔ ∃ range ∈ ranges, key ∈ range := by
  simp [coverCount, List.countP_pos_iff]

/-- Narrowing a list of ranges keeps its count inside the window and takes away what is outside. -/
theorem coverCount_narrow (ranges : List KeyRange) (window : KeyRange) (key : Key) :
    coverCount (ranges.filterMap fun range => range.intersect window) key =
      if key ∈ window then coverCount ranges key else 0 := by
  have hcount : coverCount (ranges.filterMap fun range => range.intersect window) key =
      ranges.countP fun range => decide (key ∈ range ∧ key ∈ window) := by
    rw [coverCount, List.countP_filterMap]
    apply List.countP_congr
    intro range _
    have h := any_mem_intersect range window key
    cases hi : range.intersect window <;> simp_all
  rw [hcount]
  split <;> simp_all [coverCount]

/-- Narrowed ranges hold the keys of the ranges in the window. -/
theorem exists_mem_narrow_iff {ranges : List KeyRange} {window : KeyRange} {key : Key} :
    (∃ range ∈ ranges.filterMap fun range => range.intersect window, key ∈ range) ↔
      key ∈ window ∧ ∃ range ∈ ranges, key ∈ range := by
  rw [← coverCount_pos_iff, coverCount_narrow, ← coverCount_pos_iff]
  split <;> simp_all

end KeyRange

end KeyScan
