import KeyScan.Proofs.Key.Range
import Mathlib.Data.List.Infix

/-! # Overlaps of ranges

An overlap is settled by its ends. One that has a start holds it, so ranges with a start overlap only
where they share a key. Prefix ranges are nested or have no overlap at all. -/

namespace KeyScan

namespace Key

theorem larger_comm (a b : Key) : larger a b = larger b a := by
  rw [larger, larger]
  split <;> split <;> grind

theorem smaller_comm (a b : Key) : smaller a b = smaller b a := by
  rw [smaller, smaller]
  split <;> split <;> grind

theorem larger_assoc (a b c : Key) : larger (larger a b) c = larger a (larger b c) := by
  simp only [larger]
  grind

theorem smaller_assoc (a b c : Key) : smaller (smaller a b) c = smaller a (smaller b c) := by
  simp only [smaller]
  grind

theorem larger_of_le {a b : Key} (h : a ≤ b) : larger a b = b := by
  rw [larger]
  split <;> grind

theorem smaller_of_le {a b : Key} (h : b ≤ a) : smaller a b = b := by
  rw [smaller]
  split <;> grind

/-- A longer prefix ends where the shorter one does or earlier. -/
theorem exists_prefixSuccessor_le {front longer stop : Key} (h : front <+: longer)
    (hstop : stop ∈ front.prefixSuccessor) :
    ∃ next ∈ longer.prefixSuccessor, next ≤ stop := by
  have hpast : ∀ key, front <+: key → key < stop := fun key hkey =>
    (lt_prefixSuccessor_iff key front).mpr (Or.inr hkey) stop hstop
  by_contra hnone
  have hbefore : ∀ next ∈ longer.prefixSuccessor, stop < next := by
    intro next hnext
    by_contra hle
    exact hnone ⟨next, hnext, List.not_lt.mp hle⟩
  rcases (lt_prefixSuccessor_iff stop longer).mp hbefore with hlt | hprefix
  · exact absurd (hpast longer h) (by grind)
  · exact absurd (hpast stop (h.trans hprefix)) (by grind)

end Key

namespace KeyRange

variable {a b range : KeyRange} {start stop : Key}

/-! ### Ends -/

theorem tighter_comm {choose : Key → Key → Key} (h : ∀ a b, choose a b = choose b a)
    (a b : Option Key) : tighter choose a b = tighter choose b a := by
  cases a <;> cases b <;> simp [tighter, h]

theorem intersect_comm (a b : KeyRange) : a.intersect b = b.intersect a := by
  rw [intersect, intersect, tighter_comm Key.larger_comm, tighter_comm Key.smaller_comm]

/-- The overlap is settled by its ends. -/
theorem intersect_congr
    (hstart : tighter Key.larger a.start range.start = tighter Key.larger b.start range.start)
    (hstop : tighter Key.smaller a.stop range.stop = tighter Key.smaller b.stop range.stop) :
    a.intersect range = b.intersect range := by
  rw [intersect, intersect, hstart, hstop]

theorem exists_tighter_larger (start : Key) (other : Option Key) :
    ∃ key, tighter Key.larger (some start) other = some key ∧ start ≤ key := by
  cases other with
  | none => exact ⟨start, rfl, Std.le_refl start⟩
  | some key => exact ⟨_, rfl, ((larger_le_iff start key _).mp (Std.le_refl _)).1⟩

theorem exists_tighter_smaller (stop : Key) (other : Option Key) :
    ∃ key, tighter Key.smaller (some stop) other = some key ∧ key ≤ stop := by
  cases other with
  | none => exact ⟨stop, rfl, Std.le_refl stop⟩
  | some key => exact ⟨_, rfl, (smaller_le stop key).1⟩

/-- A range that stops no later than it starts has no overlap with any other. -/
theorem intersect_eq_none (hstart : a.start = some start) (hstop : a.stop = some stop)
    (hle : stop ≤ start) (b : KeyRange) : a.intersect b = none := by
  obtain ⟨first, hfirst, hfirst'⟩ := exists_tighter_larger start b.start
  obtain ⟨last, hlast, hlast'⟩ := exists_tighter_smaller stop b.stop
  have hcrossed : last ≤ first := Std.le_trans hlast' (Std.le_trans hle hfirst')
  simp only [intersect, hstart, hstop, hfirst, hlast]
  rw [if_pos (by simpa [isCrossed] using hcrossed)]

/-- Nothing comes before the empty key. -/
theorem intersect_stop_nil (hstart : a.start = some start) (lower : Option Key) :
    a.intersect ⟨lower, some []⟩ = none := by
  obtain ⟨first, hfirst, _⟩ := exists_tighter_larger start lower
  have hlast : tighter Key.smaller a.stop (some []) = some [] := by
    cases a.stop <;> simp [tighter, Key.smaller]
  simp only [intersect, hstart, hfirst, hlast]
  rw [if_pos (by simp [isCrossed])]

/-! ### Three ranges -/

theorem tighter_assoc {choose : Key → Key → Key}
    (h : ∀ a b c, choose (choose a b) c = choose a (choose b c)) (a b c : Option Key) :
    tighter choose (tighter choose a b) c = tighter choose a (tighter choose b c) := by
  cases a <;> cases b <;> cases c <;> simp [tighter, h]

/-- The ends that bound both ranges, crossed or not. -/
def meet (a b : KeyRange) : KeyRange :=
  ⟨tighter Key.larger a.start b.start, tighter Key.smaller a.stop b.stop⟩

theorem intersect_eq (a b : KeyRange) :
    a.intersect b = if (a.meet b).isCrossed then none else some (a.meet b) :=
  rfl

theorem meet_assoc (a b c : KeyRange) : (a.meet b).meet c = a.meet (b.meet c) := by
  simp only [meet, tighter_assoc Key.larger_assoc, tighter_assoc Key.smaller_assoc]

theorem isCrossed_iff {range : KeyRange} :
    range.isCrossed = true ↔
      ∃ start stop, range.start = some start ∧ range.stop = some stop ∧ stop ≤ start := by
  obtain ⟨start, stop⟩ := range
  cases start <;> cases stop <;> simp [isCrossed]

/-- Ranges without an overlap have crossed ends, which no third range uncrosses. So the overlap with a
third range is settled by the ends of the first two, whether they overlap or not. -/
theorem bind_intersect (a b c : KeyRange) :
    ((a.intersect b).bind fun range => range.intersect c) = (a.meet b).intersect c := by
  rw [intersect_eq a b]
  split
  · rename_i hcrossed
    obtain ⟨start, stop, hstart, hstop, hle⟩ := isCrossed_iff.mp hcrossed
    exact (intersect_eq_none hstart hstop hle c).symm
  · rfl

theorem intersect_assoc (a b c : KeyRange) :
    ((a.intersect b).bind fun range => range.intersect c) = (b.intersect c).bind a.intersect := by
  have hright : a.intersect = fun range => range.intersect a := funext (intersect_comm a)
  calc ((a.intersect b).bind fun range => range.intersect c)
      = (a.meet b).intersect c := bind_intersect a b c
    _ = a.intersect (b.meet c) := by rw [intersect_eq, intersect_eq, meet_assoc]
    _ = (b.meet c).intersect a := intersect_comm a (b.meet c)
    _ = (b.intersect c).bind fun range => range.intersect a := (bind_intersect b c a).symm
    _ = (b.intersect c).bind a.intersect := by rw [hright]

theorem intersect_right_comm (a b c : KeyRange) :
    ((a.intersect b).bind fun range => range.intersect c) =
      (a.intersect c).bind fun range => range.intersect b := by
  rw [intersect_assoc, intersect_comm b c, ← intersect_assoc]

/-! ### Keys -/

/-- A range that is not crossed holds its start. -/
theorem start_mem_of_not_isCrossed (h : range.isCrossed = false) (hstart : range.start = some start) :
    start ∈ range := by
  obtain ⟨first, stop⟩ := range
  obtain rfl : first = some start := hstart
  cases stop with
  | none => simp [mem_iff]
  | some stop => simpa [isCrossed, mem_iff] using h

theorem isCrossed_of_intersect (h : a.intersect b = some range) : range.isCrossed = false := by
  simp only [intersect] at h
  split at h
  · simp at h
  · rename_i hcrossed
    obtain rfl := Option.some.inj h
    simpa using hcrossed

theorem start_of_intersect (h : a.intersect b = some range) :
    range.start = tighter Key.larger a.start b.start := by
  simp only [intersect] at h
  split at h
  · simp at h
  · rw [← Option.some.inj h]

theorem mem_iff_of_intersect (h : a.intersect b = some range) (key : Key) :
    key ∈ range ↔ key ∈ a ∧ key ∈ b := by
  have hany := any_mem_intersect a b key
  rw [h, Option.any_some, decide_eq_decide] at hany
  exact hany

/-- A range with a start overlaps another one only in a key. -/
theorem exists_mem_of_intersect (hstart : a.start = some start) (h : a.intersect b = some range) :
    ∃ key, key ∈ range := by
  obtain ⟨first, hfirst, _⟩ := exists_tighter_larger start b.start
  refine ⟨first, start_mem_of_not_isCrossed (isCrossed_of_intersect h) ?_⟩
  rw [start_of_intersect h, hstart, hfirst]

/-! ### Prefixes -/

variable {front longer other : Key}

theorem isCrossed_prefixed (front : Key) : (prefixed front).isCrossed = false := by
  have hfront := (mem_iff.mp ((mem_prefixed front front).mpr List.prefix_rfl)).2
  cases hstop : front.prefixSuccessor with
  | none => simp [prefixed, isCrossed, hstop]
  | some stop => simpa [prefixed, isCrossed, hstop] using hfront

theorem tighter_smaller_prefixSuccessor (h : front <+: longer) :
    tighter Key.smaller front.prefixSuccessor longer.prefixSuccessor =
      longer.prefixSuccessor := by
  cases hstop : front.prefixSuccessor with
  | none => rfl
  | some stop =>
      obtain ⟨next, hnext, hle⟩ := Key.exists_prefixSuccessor_le h hstop
      rw [Option.mem_def.mp hnext]
      exact congrArg some (Key.smaller_of_le hle)

/-- The keys of a longer prefix are among those of a shorter one. -/
theorem intersect_prefixed_of_prefix (h : front <+: longer) :
    (prefixed front).intersect (prefixed longer) = some (prefixed longer) := by
  have hstart : tighter Key.larger (some front) (some longer) = some longer :=
    congrArg some (Key.larger_of_le (Key.le_of_prefix h))
  simp only [intersect, prefixed, hstart, tighter_smaller_prefixSuccessor h]
  exact if_neg (Bool.eq_false_iff.mp (isCrossed_prefixed longer))

theorem intersect_prefixed_eq_none (h : ¬ front <+: other) (h' : ¬ other <+: front) :
    (prefixed front).intersect (prefixed other) = none := by
  cases hoverlap : (prefixed front).intersect (prefixed other) with
  | none => rfl
  | some range =>
      have hstart : (prefixed front).start = some front := rfl
      obtain ⟨key, hkey⟩ := exists_mem_of_intersect hstart hoverlap
      rw [mem_iff_of_intersect hoverlap, mem_prefixed, mem_prefixed] at hkey
      rcases List.prefix_or_prefix_of_prefix hkey.1 hkey.2 with hprefix | hprefix
      · exact absurd hprefix h
      · exact absurd hprefix h'

/-- A prefix range holds the keys with the prefix and no others, and two of them are nested or have
nothing in common. -/
theorem prefixed_nested_or_apart (front other key : Key) :
    (key ∈ prefixed front ↔ front <+: key) ∧
      (prefixed front).intersect (prefixed other) =
        if front <+: other then some (prefixed other)
        else if other <+: front then some (prefixed front)
        else none := by
  refine ⟨mem_prefixed front key, ?_⟩
  split
  · rename_i hprefix
    exact intersect_prefixed_of_prefix hprefix
  · rename_i hnot
    split
    · rename_i hprefix
      rw [intersect_comm]
      exact intersect_prefixed_of_prefix hprefix
    · rename_i hnot'
      exact intersect_prefixed_eq_none hnot hnot'

/-- The last byte has no next one, so the range of a key of such bytes is open. -/
example : (prefixed [255]).intersect (prefixed [255, 255]) = some ⟨some [255, 255], none⟩ := by
  decide

end KeyRange

end KeyScan
