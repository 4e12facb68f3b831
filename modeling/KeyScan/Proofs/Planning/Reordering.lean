import KeyScan.Proofs.Planning.Widening

/-! # Plans for reordered conditions

Conditions in another order name the same texts, so each of the two lists widens the other. Prefixes
are distinct, so both plans have the same ones, and the ranges differ in their order at most. -/

namespace KeyScan.Planning

variable {conditions other : List Condition} {info : TableMeta} {config : PlannerConfig}

/-- The same ranges in whatever order, or the same error. -/
inductive SameRanges : Except Error (List KeyRange) → Except Error (List KeyRange) → Prop
  | ok {ranges more : List KeyRange} (h : ranges.Perm more) : SameRanges (.ok ranges) (.ok more)
  | error (error : Error) : SameRanges (.error error) (.error error)

theorem SameRanges.refl (result : Except Error (List KeyRange)) : SameRanges result result := by
  cases result with
  | ok ranges => exact .ok (List.Perm.refl ranges)
  | error error => exact .error error

/-- Another order of the conditions only widens them, if those on the row key keep theirs. -/
theorem widens_of_perm (hperm : conditions.Perm other)
    (hrowKey : conditionsOn info.rowKeyColumn conditions =
      conditionsOn info.rowKeyColumn other) : Widens conditions other info where
  determined column := by simp only [Determined, hperm.mem_iff]
  named column := by
    intro text htext
    obtain ⟨c, hc, hequality⟩ := mem_namedTexts_iff.mp htext
    exact mem_namedTexts_iff.mpr ⟨c, hperm.mem_iff.mp hc, hequality⟩
  bounds := by rw [KeyBounds.ofConditions, KeyBounds.ofConditions, hrowKey]

namespace Widens

/-- Lists of conditions that widen each other give the same prefixes. -/
theorem perm_texts (h : Widens conditions other info) (hback : Widens other conditions info) :
    (usablePrefixes conditions info config).texts.Perm
      (usablePrefixes other info config).texts := by
  by_cases hother : (usablePrefixes other info config).texts = []
  · have hnil : (usablePrefixes conditions info config).texts = [] := by
      by_contra hne
      exact (hback.usablePrefixes_subset hne).1 hother
    rw [hnil, hother]
  · obtain ⟨hne, hsubset, _⟩ := h.usablePrefixes_subset hother
    obtain ⟨_, hsubset', _⟩ := hback.usablePrefixes_subset hne
    rw [List.perm_ext_iff_of_nodup (nodup_texts_usablePrefixes conditions info config)
      (nodup_texts_usablePrefixes other info config)]
    exact fun text => ⟨fun htext => hsubset htext, fun htext => hsubset' htext⟩

/-- Lists of conditions that widen each other are planned by prefixes both or neither, so the ranges
to be narrowed are the same. -/
theorem sameRanges_outerRanges (h : Widens conditions other info)
    (hback : Widens other conditions info) (bounds : KeyBounds) :
    SameRanges (outerRanges (usablePrefixes conditions info config) bounds info config)
      (outerRanges (usablePrefixes other info config) bounds info config) := by
  by_cases huses : UsesPrefixes (usablePrefixes other info config) info config
  · obtain ⟨_, _, hcomplete⟩ := h.usablePrefixes_subset huses.1
    rw [outerRanges_of_usesPrefixes (h.usesPrefixes huses), outerRanges_of_usesPrefixes huses]
    refine .ok ?_
    simp only [leadRange, hcomplete]
    exact ((h.perm_texts hback).product (List.Perm.refl info.leads)).map _
  · rw [outerRanges_of_not_usesPrefixes (mt hback.usesPrefixes huses),
      outerRanges_of_not_usesPrefixes huses]
    exact .refl _

end Widens

/-- The order of the conditions does not matter to a plan, but for those on the row key: in any
other order the ranges are the same, or the error is. -/
theorem planKeyRanges_reordering (hperm : conditions.Perm other)
    (hrowKey : conditionsOn info.rowKeyColumn conditions =
      conditionsOn info.rowKeyColumn other) :
    SameRanges (planKeyRanges conditions info config) (planKeyRanges other info config) := by
  have hwidens : Widens conditions other info := widens_of_perm hperm hrowKey
  have hback : Widens other conditions info := widens_of_perm hperm.symm hrowKey.symm
  have hsame := @Widens.sameRanges_outerRanges conditions other info config hwidens hback
    (KeyBounds.ofConditions conditions info)
  rw [planKeyRanges, planKeyRanges, hwidens.bounds]
  generalize outerRanges (usablePrefixes conditions info config) _ info config = planned at hsame ⊢
  generalize outerRanges (usablePrefixes other info config) _ info config = replanned at hsame ⊢
  cases hsame with
  | ok hranges => exact .ok (hranges.filterMap _)
  | error error => exact .error error

/-- Visits of two users in two countries, between two keys. -/
def visitsOfUsers : List Condition :=
  [.equals "country" (.varchar "cz"), .equals "user" (.varchar "7"),
    ⟨"visit", .ge, .varchar "a-cz-7", .varchar⟩, .equals "country" (.varchar "de"),
    ⟨"visit", .lt, .varchar "b-de", .varchar⟩, .equals "user" (.varchar "12")]

/-- The same conditions, with the later texts first. -/
def visitsOfUsersReordered : List Condition :=
  [.equals "user" (.varchar "12"), .equals "user" (.varchar "7"),
    ⟨"visit", .ge, .varchar "a-cz-7", .varchar⟩, ⟨"visit", .lt, .varchar "b-de", .varchar⟩,
    .equals "country" (.varchar "de"), .equals "country" (.varchar "cz")]

/-- The ranges do come in another order. -/
theorem planKeyRanges_reordering_visits :
    visitsOfUsers.Perm visitsOfUsersReordered ∧
      conditionsOn visitKeys.rowKeyColumn visitsOfUsers =
        conditionsOn visitKeys.rowKeyColumn visitsOfUsersReordered ∧
      SameRanges (planKeyRanges visitsOfUsers visitKeys {})
        (planKeyRanges visitsOfUsersReordered visitKeys {}) ∧
      planKeyRanges visitsOfUsers visitKeys {} ≠
        planKeyRanges visitsOfUsersReordered visitKeys {} :=
  ⟨by decide, by decide, planKeyRanges_reordering (by decide) (by decide), by decide⟩

end KeyScan.Planning
