import KeyScan.Text.Blank
import KeyScan.Text.Pieces
import Mathlib.Data.List.DropRight

/-! # Cutting and trimming texts

What cutting at a character and trimming blanks leave of a text. -/

namespace KeyScan.Text

/-! ### Cutting -/

theorem cutAt_cons (separator c : Char) (rest : List Char) :
    cutAt separator (c :: rest) =
      if c = separator then some ([], rest)
      else (cutAt separator rest).map fun sides => (c :: sides.1, sides.2) := by
  by_cases hc : c = separator
  · simp [cutAt, hc]
  · simp only [cutAt, List.dropWhile_cons, List.takeWhile_cons, hc, ne_eq, not_false_eq_true,
      decide_true, if_true, if_false]
    cases rest.dropWhile (· ≠ separator) <;> rfl

theorem cutAt_eq_some_iff {separator : Char} {cs before after : List Char} :
    cutAt separator cs = some (before, after) ↔
      cs = before ++ separator :: after ∧ separator ∉ before := by
  induction cs generalizing before with
  | nil => simp [cutAt]
  | cons c rest ih =>
      rw [cutAt_cons]
      cases before with
      | nil => by_cases hc : c = separator <;> simp [hc]
      | cons first before =>
          by_cases hc : c = separator
          · simp only [hc, if_true, Option.some.injEq, Prod.mk.injEq, List.cons_append,
              List.cons.injEq, List.mem_cons]
            grind
          · simp only [hc, if_false, Option.map_eq_some_iff, Prod.exists, Prod.mk.injEq,
              List.cons_append, List.cons.injEq, List.mem_cons]
            grind

theorem cutAt_eq_none_iff {separator : Char} {cs : List Char} :
    cutAt separator cs = none ↔ separator ∉ cs := by
  induction cs with
  | nil => simp [cutAt]
  | cons c rest ih =>
      rw [cutAt_cons]
      by_cases hc : c = separator
      · simp [hc]
      · simp [hc, ih, Ne.symm hc]

private theorem not_mem_of_mem_splitOn {separator : Char} {cs piece : List Char}
    (h : piece ∈ cs.splitOn separator) : separator ∉ piece := by
  induction cs generalizing piece with
  | nil => simp_all [List.splitOn, List.splitOnP_nil]
  | cons c rest ih =>
      rw [List.splitOn, List.splitOnP_cons_eq_if_modifyHead] at h
      split at h
      · rcases List.mem_cons.mp h with rfl | hrest
        · simp
        · exact ih hrest
      · rename_i hc
        obtain ⟨first, others, hpieces⟩ :=
          List.exists_cons_of_ne_nil (List.splitOnP_ne_nil (fun c => c == separator) rest)
        rw [hpieces, List.modifyHead_cons] at h
        rw [List.splitOn, hpieces] at ih
        rcases List.mem_cons.mp h with rfl | hothers
        · rw [List.mem_cons, not_or]
          exact ⟨fun heq => hc (by simp [heq]), ih (List.mem_cons_self ..)⟩
        · exact ih (List.mem_cons_of_mem first hothers)

/-- No piece holds the character that the text is cut at. -/
theorem not_mem_of_mem_pieces {separator : Char} {text piece : String}
    (h : piece ∈ pieces separator text) : separator ∉ piece.toList := by
  obtain ⟨cs, hcs, rfl⟩ := List.mem_map.mp h
  rw [String.toList_ofList]
  exact not_mem_of_mem_splitOn hcs

/-- Texts joined by a character that none of them holds come apart at it. -/
theorem pieces_intercalate {separator : Char} {texts : List String}
    (h : ∀ text ∈ texts, separator ∉ text.toList) (hne : texts ≠ []) :
    pieces separator (String.intercalate (String.singleton separator) texts) = texts := by
  have hsplit : ([separator].intercalate (texts.map String.toList)).splitOn separator =
      texts.map String.toList :=
    List.splitOn_intercalate separator (by simpa using h) (by simpa using hne)
  rw [pieces, String.toList_intercalate, String.toList_singleton, hsplit, List.map_map]
  simp

/-- The texts between the occurrences of a character in a text. -/
structure SplitAt (separator : Char) (text : String) (texts : List String) : Prop where
  joined : String.intercalate (String.singleton separator) texts = text
  uncut : ∀ piece ∈ texts, separator ∉ piece.toList
  ne_nil : texts ≠ []

theorem splitAt_pieces (separator : Char) (text : String) :
    SplitAt separator text (pieces separator text) where
  joined := by
    apply String.toList_injective
    rw [pieces, String.toList_intercalate, String.toList_singleton, List.map_map]
    simp [Function.comp_def, List.intercalate_splitOn]
  uncut := fun _ => not_mem_of_mem_pieces
  ne_nil := by simp [pieces, List.splitOn, List.splitOnP_ne_nil]

theorem pieces_eq_iff {separator : Char} {text : String} {texts : List String} :
    pieces separator text = texts ↔ SplitAt separator text texts := by
  constructor
  · rintro rfl
    exact splitAt_pieces separator text
  · intro h
    rw [← h.joined]
    exact pieces_intercalate h.uncut h.ne_nil

/-! ### Trimming -/

variable {cs : List Char} {c : Char}

theorem trimChars_eq_rdropWhile (cs : List Char) :
    trimChars cs = (cs.dropWhile isBlank).rdropWhile isBlank :=
  rfl

theorem mem_of_mem_trimChars (h : c ∈ trimChars cs) : c ∈ cs :=
  (List.dropWhile_sublist isBlank).subset ((List.rdropWhile_prefix isBlank _).subset h)

theorem isBlank_head_trimChars {rest : List Char} (h : trimChars cs = c :: rest) :
    isBlank c = false := by
  have hprefix : c :: rest <+: cs.dropWhile isBlank :=
    h ▸ List.rdropWhile_prefix isBlank (cs.dropWhile isBlank)
  obtain ⟨after, hafter⟩ := hprefix
  have hne : cs.dropWhile isBlank ≠ [] := by simp [← hafter]
  have hhead := List.head_dropWhile_not isBlank hne
  simpa [← hafter] using hhead

theorem isBlank_last_trimChars {front : List Char} (h : trimChars cs = front ++ [c]) :
    isBlank c = false := by
  have hne : (cs.dropWhile isBlank).rdropWhile isBlank ≠ [] := by
    rw [← trimChars_eq_rdropWhile, h]
    simp
  have hlast := List.rdropWhile_last_not isBlank _ hne
  simpa [← trimChars_eq_rdropWhile, h] using hlast

/-- Trimming leaves a text as it is that has no blank at either end. -/
theorem trimChars_eq_self (hhead : ∀ c ∈ cs.head?, isBlank c = false)
    (hlast : ∀ c ∈ cs.getLast?, isBlank c = false) : trimChars cs = cs := by
  have hdrop : cs.dropWhile isBlank = cs := by
    cases cs with
    | nil => rfl
    | cons c rest => simp [hhead c rfl]
  rw [trimChars_eq_rdropWhile, hdrop, List.rdropWhile_eq_self_iff]
  intro hne
  simpa using hlast _ (List.getLast?_eq_getLast_of_ne_nil hne)

/-- What is left of a text between the blanks around it. -/
structure Trims (cs core : List Char) : Prop where
  around : ∃ front back, cs = front ++ core ++ back ∧ (∀ c ∈ front, isBlank c = true) ∧
    ∀ c ∈ back, isBlank c = true
  head : ∀ c ∈ core.head?, isBlank c = false
  last : ∀ c ∈ core.getLast?, isBlank c = false

theorem trims_trimChars (cs : List Char) : Trims cs (trimChars cs) where
  around := by
    refine ⟨cs.takeWhile isBlank, (cs.dropWhile isBlank).rtakeWhile isBlank, ?_,
      fun c => List.mem_takeWhile_imp, fun c => List.mem_rtakeWhile_imp⟩
    rw [List.append_assoc, trimChars_eq_rdropWhile, List.rdropWhile_append_rtakeWhile,
      List.takeWhile_append_dropWhile]
  head := by
    intro c hc
    obtain ⟨rest, hrest⟩ := List.head?_eq_some_iff.mp hc
    exact isBlank_head_trimChars hrest
  last := by
    intro c hc
    obtain ⟨front, hfront⟩ := List.getLast?_eq_some_iff.mp hc
    exact isBlank_last_trimChars hfront

/-- Blanks around a text are trimmed off with those at its ends. -/
theorem trimChars_append_blanks {front core back : List Char}
    (hfront : ∀ c ∈ front, isBlank c = true)
    (hback : ∀ c ∈ back, isBlank c = true) :
    trimChars (front ++ core ++ back) = trimChars core := by
  have hend : ∀ kept : List Char, (kept ++ back).rdropWhile isBlank = kept.rdropWhile isBlank := by
    intro kept
    rw [List.rdropWhile, List.reverse_append,
      List.dropWhile_append_of_pos (by simpa using hback), List.rdropWhile]
  rw [trimChars_eq_rdropWhile, trimChars_eq_rdropWhile, List.append_assoc,
    List.dropWhile_append_of_pos hfront, List.dropWhile_append]
  split
  · rename_i hempty
    have hnone : back.dropWhile isBlank = [] := List.dropWhile_eq_nil_iff.mpr hback
    rw [List.isEmpty_iff.mp hempty, hnone]
  · exact hend _

theorem trimChars_eq_iff {core : List Char} : trimChars cs = core ↔ Trims cs core := by
  constructor
  · rintro rfl
    exact trims_trimChars cs
  · intro h
    obtain ⟨front, back, rfl, hfront, hback⟩ := h.around
    rw [trimChars_append_blanks hfront hback]
    exact trimChars_eq_self h.head h.last

theorem toList_trim (text : String) : (trim text).toList = trimChars text.toList :=
  String.toList_ofList

theorem trim_trim (text : String) : trim (trim text) = trim text := by
  have htrims := trims_trimChars text.toList
  rw [trim, toList_trim, trimChars_eq_self htrims.head htrims.last, ← trim]

theorem trim_eq_empty_iff {text : String} : trim text = "" ↔ isAllBlank text = true := by
  rw [← String.toList_inj, toList_trim, String.toList_empty, isAllBlank, List.all_eq_true]
  constructor
  · intro h c hc
    obtain ⟨front, back, htext, hfront, hback⟩ := (trimChars_eq_iff.mp h).around
    rw [htext, List.append_nil, List.mem_append] at hc
    exact hc.elim (hfront c) (hback c)
  · intro h
    exact trimChars_eq_iff.mpr ⟨⟨text.toList, [], by simp, h, by simp⟩, by simp, by simp⟩

end KeyScan.Text
