import KeyScan.Proofs.Planning.Prefixes
import Mathlib.Data.List.ProdSigma

/-! # The keys of the prefix ranges

A plan that goes by prefixes has a range for every prefix after every lead, so a key lies in the
ranges of its own lead alone. A plan that does not go by prefixes covers every key with a lead. -/

namespace KeyScan

open KeyRange

/-! ### One prefix range -/

namespace Planning

variable {complete : Bool} {separator body lead rest key : Key}

/-- The range of a prefix holds the keys that go on with the separator and, if the prefix is
complete, those from the prefix up to them. -/
theorem mem_prefixRange_iff :
    key ∈ prefixRange complete separator body ↔
      body ++ separator <+: key ∨
        complete = true ∧ body ≤ key ∧ key < body ++ separator := by
  cases complete with
  | false => simp [prefixRange, mem_prefixed]
  | true =>
      have hmem : key ∈ prefixRange true separator body ↔
          body ≤ key ∧ (key < body ++ separator ∨ body ++ separator <+: key) := by
        rw [← Key.lt_prefixSuccessor_iff]
        simp [prefixRange, mem_iff]
      have hle : body ++ separator <+: key → body ≤ key :=
        fun hprefix => Key.le_of_prefix ((List.prefix_append body separator).trans hprefix)
      rw [hmem]
      grind

theorem append_mem_prefixRange_iff :
    lead ++ rest ∈ prefixRange complete separator (lead ++ body) ↔
      rest ∈ prefixRange complete separator body := by
  simp only [mem_prefixRange_iff, List.append_assoc, List.prefix_append_right_inj,
    Key.append_le_append_iff, Key.append_lt_append_iff]

/-- The keys of a prefix start with what the prefix starts with. -/
theorem prefix_of_mem_prefixRange (h : key ∈ prefixRange complete separator (lead ++ body)) :
    lead <+: key := by
  rcases mem_prefixRange_iff.mp h with hprefix | ⟨_, hle, hlt⟩
  · rw [List.append_assoc] at hprefix
    exact (List.prefix_append lead (body ++ separator)).trans hprefix
  · rw [List.append_assoc] at hlt
    exact Key.prefix_of_between hle hlt

end Planning

/-! ### Leads -/

/-- What may stand before the parts of a key: nothing or, on a salted table, a salt byte with the
separator. -/
def TableMeta.leads (info : TableMeta) : List Key :=
  match info.salt with
  | none => [[]]
  | some salt => salt.bytes.map fun byte => byte :: Key.ofText info.rowKeyFormat.separator

namespace TableMeta

variable {info : TableMeta} {parts : List Key} {key lead other : Key}

theorem Composes.exists_lead (h : info.Composes parts key) :
    ∃ lead ∈ info.leads,
      key = lead ++ List.intercalate (Key.ofText info.rowKeyFormat.separator) parts := by
  unfold leads
  cases h with
  | unsalted hsalt => exact ⟨[], by simp [hsalt], rfl⟩
  | salted hsalt hbyte =>
      rw [hsalt]
      exact ⟨_, List.mem_map_of_mem hbyte, rfl⟩

/-- A key that starts with a lead lies in a range of the salt. -/
theorem saltCount_append_pos (hlead : lead ∈ info.leads) (rest : Key) :
    0 < info.saltCount (lead ++ rest) := by
  unfold leads at hlead
  unfold saltCount
  cases hsalt : info.salt with
  | none => exact Nat.one_pos
  | some salt =>
      simp only [hsalt, List.mem_map] at hlead
      obtain ⟨byte, hbyte, rfl⟩ := hlead
      obtain ⟨range, hrange, hcontains⟩ := (Salt.mem_bytes_iff salt byte).mp hbyte
      exact List.countP_pos_iff.mpr ⟨range, hrange, by simpa using hcontains⟩

/-- A key starts with one lead at most. -/
theorem lead_unique (hlead : lead ∈ info.leads) (hother : other ∈ info.leads)
    (h : lead <+: key) (h' : other <+: key) : lead = other := by
  unfold leads at hlead hother
  cases hsalt : info.salt with
  | none => simp_all
  | some salt =>
      simp only [hsalt, List.mem_map] at hlead hother
      obtain ⟨byte, _, rfl⟩ := hlead
      obtain ⟨byte', _, rfl⟩ := hother
      cases key with
      | nil => simp at h
      | cons first rest =>
          rw [List.cons_prefix_cons] at h h'
          rw [h.1, h'.1]

end TableMeta

/-! ### Plans with and without prefixes -/

namespace Planning

variable {conditions : List Condition} {info : TableMeta} {config : PlannerConfig}
  {prefixes : Prefixes} {bounds : KeyBounds} {key : Key}

/-- The range of a prefix after a lead. -/
def leadRange (prefixes : Prefixes) (info : TableMeta) (lead : Key) (text : String) : KeyRange :=
  prefixRange prefixes.complete (Key.ofText info.rowKeyFormat.separator) (lead ++ Key.ofText text)

theorem outerRanges_of_usesPrefixes (h : UsesPrefixes prefixes info config) (bounds : KeyBounds) :
    outerRanges prefixes bounds info config =
      .ok ((prefixes.texts ×ˢ info.leads).map fun pair =>
        leadRange prefixes info pair.2 pair.1) := by
  have hproduct : (prefixes.texts ×ˢ info.leads).map (fun pair =>
      leadRange prefixes info pair.2 pair.1) =
        prefixes.texts.flatMap fun text =>
          info.leads.map fun lead => leadRange prefixes info lead text := by
    simp [SProd.sprod, List.product, List.map_flatMap, Function.comp_def]
  rw [hproduct, outerRanges, TableMeta.leads]
  cases hsalt : info.salt with
  | none =>
      simp [h.1, prefixRanges, leadRange, ← List.map_eq_flatMap]
  | some salt =>
      have hfew : ¬ config.maxSplitCount < Word.saturatingMul salt.size prefixes.texts.length :=
        Nat.not_lt.mpr (h.2 salt hsalt)
      simp [h.1, hfew, saltedPrefixRanges, leadRange, Function.comp_def]

/-- A key lies in the ranges of prefixes if what comes after its lead lies in the range of a prefix.
-/
theorem exists_mem_leadRange_iff {lead : Key} (hlead : lead ∈ info.leads) (rest : Key) :
    (∃ range ∈ (prefixes.texts ×ˢ info.leads).map fun pair =>
        leadRange prefixes info pair.2 pair.1, lead ++ rest ∈ range) ↔
      ∃ text ∈ prefixes.texts, rest ∈ prefixRange prefixes.complete
        (Key.ofText info.rowKeyFormat.separator) (Key.ofText text) := by
  simp only [List.mem_map, Prod.exists, List.mem_product]
  constructor
  · rintro ⟨_, ⟨text, other, ⟨htext, hother⟩, rfl⟩, hmem⟩
    obtain rfl : other = lead := TableMeta.lead_unique hother hlead
      (prefix_of_mem_prefixRange hmem) (List.prefix_append lead rest)
    exact ⟨text, htext, append_mem_prefixRange_iff.mp hmem⟩
  · rintro ⟨text, htext, hmem⟩
    exact ⟨_, ⟨text, lead, ⟨htext, hlead⟩, rfl⟩, append_mem_prefixRange_iff.mpr hmem⟩

/-- A key after a lead lies in a range of every plan that does not go by prefixes; if the plan does,
what comes after the lead has to lie in the range of a prefix. -/
theorem exists_mem_outerRanges_iff {lead rest : Key} (hlead : lead ∈ info.leads)
    (hkey : lead ++ rest ∈ bounds.keyRange) {outer : List KeyRange}
    (h : outerRanges prefixes bounds info config = .ok outer) :
    (∃ range ∈ outer, lead ++ rest ∈ range) ↔
      (UsesPrefixes prefixes info config →
        ∃ text ∈ prefixes.texts, rest ∈ prefixRange prefixes.complete
          (Key.ofText info.rowKeyFormat.separator) (Key.ofText text)) := by
  by_cases huses : UsesPrefixes prefixes info config
  · rw [outerRanges_of_usesPrefixes huses] at h
    obtain rfl := Except.ok.inj h
    simp only [exists_mem_leadRange_iff hlead, huses, true_implies]
  · have hpos := Nat.lt_of_lt_of_le (TableMeta.saltCount_append_pos hlead rest)
      (coverCount_outerRanges huses h hkey).1
    simp [huses, coverCount_pos_iff.mp hpos]

/-! ### A table to plan for -/

/-- Visits by country and user, each after one of two salt bytes. -/
def visitKeys : TableMeta where
  schema := "web"
  table := "visits"
  rowKeyColumn := "visit"
  rowKeyFormat := ⟨["country", "user"], "-"⟩
  salt := some ⟨[⟨97, 98⟩]⟩
  columns := [.rowKey "visit"]

theorem visitKeys_salt_valid : ∀ salt ∈ visitKeys.salt, salt.Valid := by
  rintro salt ⟨⟩
  exact ⟨by simp [Salt.ofRanges, Salt.overlap?], by decide⟩

end Planning

end KeyScan
