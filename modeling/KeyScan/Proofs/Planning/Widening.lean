import KeyScan.Proofs.Planning.PrefixRanges

/-! # Plans for wider conditions

One more value for a column may turn a plan by prefixes into one by salt buckets or into one range.
Whatever a plan falls back to, its ranges hold the keys of the ranges that they replace. -/

namespace KeyScan.Planning

open KeyRange

variable {conditions wider : List Condition} {info : TableMeta} {config : PlannerConfig}

/-- Equalities determine the same columns by at least the same texts, and the hull is the same. -/
structure Widens (conditions wider : List Condition) (info : TableMeta) : Prop where
  determined : ∀ column, Determined wider column ↔ Determined conditions column
  named : ∀ column, namedTexts conditions column ⊆ namedTexts wider column
  bounds : KeyBounds.ofConditions wider info = KeyBounds.ofConditions conditions info

/-! ### One more equality -/

variable {front back : List Condition} {added : Condition}

private theorem conditionsOn_insert_of_ne {column : String} (h : added.column ≠ column) :
    conditionsOn column (front ++ added :: back) = conditionsOn column (front ++ back) := by
  simp [conditionsOn, h]

/-- The hull does not see an equality beside another one on the same column. -/
private theorem ofConditions_insert (hadded : added.operator = .eq)
    (hpresent : ∃ c ∈ front ++ back, c.isEqualityOn added.column = true) :
    KeyBounds.ofConditions (front ++ added :: back) info =
      KeyBounds.ofConditions (front ++ back) info := by
  by_cases hcolumn : added.column = info.rowKeyColumn
  · obtain ⟨c, hc, hequality⟩ := hpresent
    rw [hcolumn, Condition.isEqualityOn, Bool.and_eq_true, decide_eq_true_eq,
      decide_eq_true_eq] at hequality
    have hold : c ∈ conditionsOn info.rowKeyColumn (front ++ back) := by
      simpa [conditionsOn, hequality.2] using hc
    have hnew : added ∈ conditionsOn info.rowKeyColumn (front ++ added :: back) := by
      simp [conditionsOn, hcolumn]
    rw [KeyBounds.ofConditions, KeyBounds.ofConditions,
      KeyBounds.ofRowKeyConditions_of_equality hold hequality.1,
      KeyBounds.ofRowKeyConditions_of_equality hnew hadded]
  · rw [KeyBounds.ofConditions, KeyBounds.ofConditions, conditionsOn_insert_of_ne hcolumn]

/-- One more equality on a column that has one, with a value of the column's type, only widens. -/
theorem widens_insert (hadded : added.operator = .eq)
    (hpresent : ∃ c ∈ front ++ back, c.isEqualityOn added.column = true)
    (hconverts : (added.value.convert? added.valueType).isSome = true) :
    Widens (front ++ back) (front ++ added :: back) info where
  determined column := by
    have hmem : ∀ c, c ∈ front ++ added :: back ↔ c = added ∨ c ∈ front ++ back := by
      intro c
      simp only [List.mem_append, List.mem_cons]
      grind
    have hcolumn : added.isEqualityOn column = true → added.column = column := by
      simp [Condition.isEqualityOn]
    simp only [Determined, hmem]
    grind
  named column := by
    intro text htext
    obtain ⟨c, hc, hequality⟩ := mem_namedTexts_iff.mp htext
    refine mem_namedTexts_iff.mpr ⟨c, ?_, hequality⟩
    simp only [List.mem_append, List.mem_cons] at hc ⊢
    exact hc.imp_right Or.inr
  bounds := ofConditions_insert hadded hpresent

/-! ### Prefixes for wider conditions -/

namespace Widens

theorem leadingTexts_eq (h : Widens conditions wider info) (components : List String) :
    leadingTexts wider components =
      (components.takeWhile fun component => Determined conditions component).map
        (namedTexts wider) := by
  rw [Planning.leadingTexts_eq]
  simp only [h.determined]

theorem leadingTexts_eq_nil_iff (h : Widens conditions wider info) (components : List String) :
    leadingTexts wider components = [] ↔ leadingTexts conditions components = [] := by
  rw [h.leadingTexts_eq, Planning.leadingTexts_eq, List.map_eq_nil_iff, List.map_eq_nil_iff]

/-- No component has fewer texts. -/
theorem forall₂_length_le (h : Widens conditions wider info) (components : List String) :
    List.Forall₂ (fun texts more => texts.length ≤ more.length)
      (leadingTexts conditions components) (leadingTexts wider components) := by
  rw [h.leadingTexts_eq, Planning.leadingTexts_eq, List.forall₂_map_left_iff,
    List.forall₂_map_right_iff, List.forall₂_same]
  intro component _
  exact (List.subperm_of_subset (nodup_namedTexts conditions component)
    (h.named component)).length_le

theorem joined_subset (h : Widens conditions wider info) (separator : String)
    (components : List String) :
    joined separator (leadingTexts conditions components) ⊆
      joined separator (leadingTexts wider components) := by
  by_cases hnil : leadingTexts conditions components = []
  · simp [joined, hnil]
  · rw [joined, joined, if_neg hnil, if_neg fun hwider =>
      hnil ((h.leadingTexts_eq_nil_iff components).mp hwider)]
    apply List.map_subset
    intro choice hchoice
    rw [mem_choices_iff, Planning.leadingTexts_eq, List.forall₂_map_right_iff] at hchoice
    rw [mem_choices_iff, h.leadingTexts_eq, List.forall₂_map_right_iff]
    exact hchoice.imp fun _ component htext => h.named component htext

/-- Where wider conditions still give prefixes, those of the narrower ones are among them and equally
long. -/
theorem usablePrefixes_subset (h : Widens conditions wider info)
    (hused : (usablePrefixes wider info config).texts ≠ []) :
    (usablePrefixes conditions info config).texts ≠ [] ∧
      (usablePrefixes conditions info config).texts ⊆ (usablePrefixes wider info config).texts ∧
      (usablePrefixes conditions info config).complete =
        (usablePrefixes wider info config).complete := by
  have hlonger := h.forall₂_length_le info.rowKeyFormat.components
  have hwide := mt texts_usablePrefixes_eq_nil_iff.mpr hused
  have hnarrow : ¬ (leadingTexts conditions info.rowKeyFormat.components = [] ∨
      PastCap config.maxPrefixExpansion
        (leadingTexts conditions info.rowKeyFormat.components)) := by
    rw [not_or, h.leadingTexts_eq_nil_iff] at hwide
    exact not_or.mpr ⟨hwide.1, mt (PastCap.mono hlonger) hwide.2⟩
  refine ⟨mt texts_usablePrefixes_eq_nil_iff.mp hnarrow, ?_, ?_⟩
  · rw [usablePrefixes_eq, usablePrefixes_eq, if_neg hnarrow, if_neg hwide]
    intro text htext
    rw [List.mem_eraseDups] at htext ⊢
    exact h.joined_subset _ _ htext
  · rw [usablePrefixes_eq, usablePrefixes_eq, if_neg hnarrow, if_neg hwide]
    simp only [hlonger.length_eq]

/-- A plan by prefixes for wider conditions goes with one for the narrower ones. -/
theorem usesPrefixes (h : Widens conditions wider info)
    (huses : UsesPrefixes (usablePrefixes wider info config) info config) :
    UsesPrefixes (usablePrefixes conditions info config) info config := by
  obtain ⟨hne, hsubset, _⟩ := h.usablePrefixes_subset huses.1
  have hlength := (List.subperm_of_subset (nodup_texts_usablePrefixes conditions info config)
    hsubset).length_le
  refine ⟨hne, fun salt hsalt => ?_⟩
  exact Nat.le_trans (Word.saturatingMul_le_saturatingMul (Nat.le_refl _) hlength)
    (huses.2 salt hsalt)

end Widens

/-! ### Plans for wider conditions -/

theorem Widens.exists_mem_outerRanges (h : Widens conditions wider info) {key : Key}
    {outer more : List KeyRange} {bounds : KeyBounds}
    (houter : outerRanges (usablePrefixes conditions info config) bounds info config = .ok outer)
    (hmore : outerRanges (usablePrefixes wider info config) bounds info config = .ok more)
    (hkey : key ∈ bounds.keyRange) (hmem : ∃ range ∈ outer, key ∈ range) :
    ∃ range ∈ more, key ∈ range := by
  by_cases huses : UsesPrefixes (usablePrefixes conditions info config) info config
  · rw [outerRanges_of_usesPrefixes huses] at houter
    obtain rfl := Except.ok.inj houter
    obtain ⟨_, hrange, hmem⟩ := hmem
    obtain ⟨⟨text, lead⟩, hpair, rfl⟩ := List.mem_map.mp hrange
    obtain ⟨htext, hlead⟩ := List.mem_product.mp hpair
    -- The key has a lead, so only a wider plan by prefixes could miss it.
    obtain ⟨rest, rfl⟩ := prefix_of_mem_prefixRange hmem
    refine (exists_mem_outerRanges_iff hlead hkey hmore).mpr fun hwider => ?_
    obtain ⟨_, hsubset, hcomplete⟩ := h.usablePrefixes_subset hwider.1
    rw [leadRange, append_mem_prefixRange_iff, hcomplete] at hmem
    exact ⟨text, hsubset htext, hmem⟩
  · -- Neither plan goes by prefixes, and nothing else of the conditions counts.
    rw [outerRanges_of_not_usesPrefixes huses] at houter
    rw [outerRanges_of_not_usesPrefixes (mt h.usesPrefixes huses), houter] at hmore
    obtain rfl := Except.ok.inj hmore
    exact hmem

/-- One more equality on a column that has one loses no key: planning succeeds without it and with it,
and every key in a range planned without it is in a range planned with it. -/
theorem planKeyRanges_widening {front back : List Condition} {added : Condition}
    (hcount : 0 < config.saltBucketCount) (hadded : added.operator = .eq)
    (hpresent : ∃ c ∈ front ++ back, c.isEqualityOn added.column = true)
    (hconverts : (added.value.convert? added.valueType).isSome = true) :
    ∃ ranges more, planKeyRanges (front ++ back) info config = .ok ranges ∧
      planKeyRanges (front ++ added :: back) info config = .ok more ∧
      ∀ key, (∃ range ∈ ranges, key ∈ range) → ∃ range ∈ more, key ∈ range := by
  have hwidens : Widens (front ++ back) (front ++ added :: back) info :=
    widens_insert hadded hpresent hconverts
  obtain ⟨outer, houter⟩ := exists_outerRanges_eq_ok (Nat.ne_of_gt hcount)
    (usablePrefixes (front ++ back) info config) info
    (KeyBounds.ofConditions (front ++ back) info)
  obtain ⟨more, hmore⟩ := exists_outerRanges_eq_ok (Nat.ne_of_gt hcount)
    (usablePrefixes (front ++ added :: back) info config) info
    (KeyBounds.ofConditions (front ++ back) info)
  refine ⟨_, _, by rw [planKeyRanges, houter]; rfl,
    by rw [planKeyRanges, hwidens.bounds, hmore]; rfl, ?_⟩
  intro key hcovered
  rw [exists_mem_narrow_iff] at hcovered ⊢
  exact ⟨hcovered.1, hwidens.exists_mem_outerRanges houter hmore hcovered.1 hcovered.2⟩

/-- Two countries after two salt bytes keep to four splits; with a third one salt buckets are scanned.
-/
theorem planKeyRanges_widening_visits :
    ∃ ranges more,
      planKeyRanges [.equals "country" (.varchar "cz"), .equals "country" (.varchar "de")]
        visitKeys { maxSplitCount := 4 } = .ok ranges ∧
      planKeyRanges [.equals "country" (.varchar "cz"), .equals "country" (.varchar "at"),
        .equals "country" (.varchar "de")] visitKeys { maxSplitCount := 4 } = .ok more ∧
      (∃ range ∈ ranges, Key.ofText "b-de-7" ∈ range) ∧
      ∃ range ∈ more, Key.ofText "b-de-7" ∈ range := by
  obtain ⟨ranges, more, hranges, hmore, hwider⟩ := @planKeyRanges_widening visitKeys
    { maxSplitCount := 4 } [.equals "country" (.varchar "cz")]
    [.equals "country" (.varchar "de")] (.equals "country" (.varchar "at")) (by decide) rfl
    (by decide) (by decide)
  have hplan : planKeyRanges [.equals "country" (.varchar "cz"), .equals "country" (.varchar "de")]
      visitKeys { maxSplitCount := 4 } = .ok _ := rfl
  have hcovered : ∃ range ∈ ranges, Key.ofText "b-de-7" ∈ range := by
    obtain rfl := Except.ok.inj (hplan.symm.trans hranges)
    decide
  exact ⟨ranges, more, hranges, hmore, hcovered, hwider _ hcovered⟩

end KeyScan.Planning
