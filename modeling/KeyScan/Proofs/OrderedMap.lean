import Mathlib.Data.List.Nodup
import KeyScan.OrderedMap

/-! # Ordered maps

What insertion does to look-ups and to the entries. Look-ups need no order; that every key stands
once does. -/

namespace KeyScan.OrderedMap

section Lookups

variable {κ ν : Type} [DecidableEq κ] {m : OrderedMap κ ν} {key : κ} {value : ν}

theorem mem_of_find?_eq_some (h : m.find? key = some value) : (key, value) ∈ m.entries := by
  obtain ⟨entry, hentry, rfl⟩ := Option.map_eq_some_iff.mp h
  have hkey : entry.1 = key := by simpa using List.find?_some hentry
  rw [← hkey]
  exact List.mem_of_find?_eq_some hentry

theorem contains_eq_isSome_find? (m : OrderedMap κ ν) (key : κ) :
    m.contains key = (m.find? key).isSome := by
  rw [contains, find?, Option.isSome_map, List.isSome_find?]

theorem contains_erase (m : OrderedMap κ ν) (key other : κ) :
    (m.erase key).contains other = (decide (other ≠ key) && m.contains other) := by
  rw [contains, erase, List.any_filter, contains, List.any_eq, List.any_eq]
  by_cases hother : other = key
  · simp +contextual [hother]
  · simp +contextual [hother]

variable [LT κ] [DecidableLT κ]

theorem find?_insert (m : OrderedMap κ ν) (key other : κ) (value : ν) :
    (m.insert key value).find? other = if key = other then some value else m.find? other := by
  unfold insert find?
  induction m.entries with
  | nil => by_cases hother : key = other <;> simp [insertEntry, hother]
  | cons entry rest ih =>
      rw [insertEntry]
      split
      · by_cases hother : key = other <;> simp [hother]
      · split
        · rename_i hkey
          by_cases hother : key = other
          · simp [hother]
          · have hentry : entry.1 ≠ other := by rwa [← hkey]
            simp [hother, hentry]
        · rename_i hkey
          by_cases hentry : entry.1 = other
          · have hother : key ≠ other := by rwa [← hentry]
            simp [hentry, hother]
          · simpa [hentry] using ih

/-- An entry under a new key is one more. -/
theorem size_insert_of_find?_eq_none (h : m.find? key = none) (value : ν) :
    (m.insert key value).size = m.size + 1 := by
  rw [find?, Option.map_eq_none_iff, List.find?_eq_none] at h
  obtain ⟨entries⟩ := m
  unfold insert size
  induction entries with
  | nil => rfl
  | cons entry rest ih =>
      obtain ⟨hentry, hrest⟩ := List.forall_mem_cons.mp h
      have hkey : key ≠ entry.1 := by
        rintro rfl
        simp at hentry
      rw [insertEntry, if_neg hkey]
      split
      · rfl
      · simpa using ih hrest

theorem mem_insertEntry {entry : κ × ν} {entries : List (κ × ν)}
    (h : entry ∈ insertEntry key value entries) : entry = (key, value) ∨ entry ∈ entries := by
  induction entries with
  | nil => simpa [insertEntry] using h
  | cons first rest ih =>
      rw [insertEntry] at h
      split at h
      · simpa using h
      · split at h
        · rcases List.mem_cons.mp h with heq | hrest
          · exact Or.inl heq
          · exact Or.inr (List.mem_cons_of_mem first hrest)
        · rcases List.mem_cons.mp h with heq | hrest
          · exact Or.inr (by simp [heq])
          · exact (ih hrest).imp id (List.mem_cons_of_mem first)

end Lookups

/-! ### Maps in order -/

variable {κ ν : Type} [LE κ] [LT κ] [DecidableLT κ] [DecidableEq κ] [Std.IsLinearOrder κ]
  [Std.LawfulOrderLT κ] {m : OrderedMap κ ν}

private theorem pairwise_insertEntry {entries : List (κ × ν)}
    (h : entries.Pairwise fun a b => a.1 < b.1) (key : κ) (value : ν) :
    (insertEntry key value entries).Pairwise fun a b => a.1 < b.1 := by
  induction entries with
  | nil => exact List.pairwise_singleton _ _
  | cons first rest ih =>
      obtain ⟨hhead, htail⟩ := List.pairwise_cons.mp h
      rw [insertEntry]
      split
      · rename_i hlt
        refine List.pairwise_cons.mpr ⟨?_, h⟩
        intro entry hentry
        rcases List.mem_cons.mp hentry with rfl | hrest
        · exact hlt
        · exact Std.lt_trans hlt (hhead entry hrest)
      · split
        · rename_i hkey
          refine List.pairwise_cons.mpr ⟨?_, htail⟩
          intro entry hentry
          rw [hkey]
          exact hhead entry hentry
        · rename_i hlt hkey
          refine List.pairwise_cons.mpr ⟨?_, ih htail⟩
          intro entry hentry
          rcases mem_insertEntry hentry with rfl | hrest
          · change first.1 < key
            grind
          · exact hhead entry hrest

theorem sorted_insert (h : m.Sorted) (key : κ) (value : ν) : (m.insert key value).Sorted :=
  pairwise_insertEntry h key value

omit [LE κ] [DecidableLT κ] [Std.IsLinearOrder κ] [Std.LawfulOrderLT κ] in
theorem sorted_erase (h : m.Sorted) (key : κ) : (m.erase key).Sorted :=
  List.Pairwise.filter _ h

omit [DecidableLT κ] [DecidableEq κ] in
/-- In an ordered map every key stands once. -/
theorem nodup_keys (h : m.Sorted) : (m.entries.map Prod.fst).Nodup := by
  apply List.pairwise_map.mpr
  refine h.imp ?_
  intro a b hab
  grind

omit [DecidableLT κ] in
/-- In an ordered map the entries are what look-ups find. -/
theorem find?_eq_some_iff (h : m.Sorted) (key : κ) (value : ν) :
    m.find? key = some value ↔ (key, value) ∈ m.entries := by
  refine ⟨mem_of_find?_eq_some, ?_⟩
  intro hmem
  have hsome : (m.find? key).isSome := by
    rw [← contains_eq_isSome_find?, contains, List.any_eq_true]
    exact ⟨(key, value), hmem, by simp⟩
  obtain ⟨other, hother⟩ := Option.isSome_iff_exists.mp hsome
  have hsame := List.inj_on_of_nodup_map (nodup_keys h) (mem_of_find?_eq_some hother) hmem rfl
  rw [hother, (Prod.mk.inj hsame).2]

omit [Std.IsLinearOrder κ] in
private theorem insertEntry_insertEntry (key : κ) (value later : ν) (entries : List (κ × ν)) :
    insertEntry key later (insertEntry key value entries) = insertEntry key later entries := by
  have hirrefl : ¬ key < key := Std.lt_irrefl
  induction entries with
  | nil => simp [insertEntry, hirrefl]
  | cons first rest ih =>
      by_cases hlt : key < first.1
      · simp [insertEntry, hlt, hirrefl]
      · by_cases hkey : key = first.1
        · simp [insertEntry, ← hkey, hirrefl]
        · simp [insertEntry, hlt, hkey, ih]

omit [Std.IsLinearOrder κ] in
/-- Of two values for one key the later one stays. -/
theorem insert_insert (m : OrderedMap κ ν) (key : κ) (value later : ν) :
    (m.insert key value).insert key later = m.insert key later :=
  congrArg mk (insertEntry_insertEntry key value later m.entries)

private theorem insertEntry_of_mem {entries : List (κ × ν)}
    (h : entries.Pairwise fun a b => a.1 < b.1) {key : κ} {value : ν}
    (hmem : (key, value) ∈ entries) : insertEntry key value entries = entries := by
  induction entries with
  | nil => simp at hmem
  | cons first rest ih =>
      obtain ⟨hhead, htail⟩ := List.pairwise_cons.mp h
      have hirrefl : ¬ key < key := Std.lt_irrefl
      rcases List.mem_cons.mp hmem with rfl | hrest
      · simp [insertEntry, hirrefl]
      · have hafter : first.1 < key := hhead _ hrest
        have hnot : ¬ key < first.1 ∧ key ≠ first.1 := by grind
        rw [insertEntry, if_neg hnot.1, if_neg hnot.2, ih htail hrest]

/-- Putting a value that is there changes nothing. -/
theorem insert_of_find?_eq_some (h : m.Sorted) {key : κ} {value : ν}
    (hvalue : m.find? key = some value) : m.insert key value = m :=
  congrArg mk (insertEntry_of_mem h (mem_of_find?_eq_some hvalue))

end KeyScan.OrderedMap
