import KeyScan.Proofs.Planning.Chunks
import KeyScan.Proofs.Planning.PrefixRanges
import KeyScan.Proofs.Salt.Alphabet

/-! # The number of splits

Every way of planning keeps to a limit of the configuration, or to the size of the salt alphabet,
however many conditions there are. Limits that products are held against are meant to lie below the
last machine word; at the last word a product is within them if a word holds it. -/

namespace KeyScan

/-! ### Valid configurations -/

theorem Config.maxBatches_ne_zero {config : Config} (h : config.fault? = none) :
    config.planner.maxBatches ≠ 0 := by
  intro hzero
  have hrule := rule_of_fault?_eq_none h (config.planner.maxBatches = 0,
    "planner.batch_get_max_splits must be > 0") (by simp [rules])
  simp [hzero] at hrule

/-! ### Buckets -/

namespace Buckets

/-- A bucket takes a byte at least. -/
theorem length_cut_le {step : Nat} (positive : 0 < step) (first last : Nat) :
    (cut step positive first last).length ≤ last - first + 1 := by
  fun_induction cut step positive first last with
  | case1 first hshort => simp
  | case2 first hlong ih =>
      rw [List.length_cons]
      omega

theorem length_partition_le {ranges buckets : List CharRange} {count : Nat}
    (h : partition ranges count = .ok buckets) :
    buckets.length ≤ CharRange.totalSize ranges := by
  have hcut : ∀ {step : Nat} (positive : 0 < step) (ranges : List CharRange),
      (ranges.flatMap fun range =>
        cut step positive range.first.toNat range.last.toNat).length ≤
          CharRange.totalSize ranges := by
    intro step positive ranges
    induction ranges with
    | nil => exact Nat.le_refl 0
    | cons range rest ih =>
        rw [List.flatMap_cons, List.length_append]
        exact Nat.add_le_add (length_cut_le positive _ _) ih
  rw [partition] at h
  split at h
  · simp at h
  · obtain rfl := Except.ok.inj h
    exact hcut _ ranges

end Buckets

namespace Planning

variable {conditions : List Condition} {info : TableMeta} {config : PlannerConfig}
  {prefixes : Prefixes} {bounds : KeyBounds}

/-! ### Batches -/

theorem length_batchUnits_le (h : config.maxBatches ≠ 0) (conditions : List Condition)
    (info : TableMeta) : (batchUnits config conditions info).length ≤ config.maxBatches := by
  rw [batchUnits, List.length_map]
  exact Nat.le_trans (length_chunks_le _ _) (Nat.max_le.mpr ⟨Nat.le_refl _, by omega⟩)

/-! ### Prefixes -/

theorem length_joined_le (separator : String) (columns : List (List String)) :
    (joined separator columns).length ≤ (columns.map List.length).prod := by
  rw [joined]
  split
  · exact Nat.zero_le _
  · rw [List.length_map, length_choices]

/-- The cap is below the last word, or else a word holds the product of the texts. -/
def PrefixesFit (config : PlannerConfig) (conditions : List Condition) (info : TableMeta) : Prop :=
  config.maxPrefixExpansion < Word.last ∨
    ((leadingTexts conditions info.rowKeyFormat.components).map List.length).prod < UInt64.size

theorem prod_le_of_not_pastCap {cap : Nat} {columns : List (List String)} (hne : columns ≠ [])
    (h : ¬ PastCap cap columns)
    (hfits : cap < Word.last ∨ (columns.map List.length).prod < UInt64.size) :
    (columns.map List.length).prod ≤ cap := by
  cases columns with
  | nil => exact absurd rfl hne
  | cons first rest =>
      rw [List.map_cons, List.prod_cons] at hfits ⊢
      exact (Word.mul_le_and_lt_of_saturatingMul_le (Nat.not_lt.mp (not_or.mp h).2) hfits).1

theorem length_usablePrefixes_le_prod (conditions : List Condition) (info : TableMeta)
    (config : PlannerConfig) :
    (usablePrefixes conditions info config).texts.length ≤
      ((leadingTexts conditions info.rowKeyFormat.components).map List.length).prod := by
  rw [usablePrefixes_eq]
  simp only
  split
  · exact Nat.zero_le _
  · exact Nat.le_trans (eraseDupsBy_sublist _ _).length_le (length_joined_le _ _)

/-- Past the cap there are no prefixes at all. -/
theorem length_usablePrefixes_le (h : PrefixesFit config conditions info) :
    (usablePrefixes conditions info config).texts.length ≤ config.maxPrefixExpansion := by
  by_cases hnil : (usablePrefixes conditions info config).texts = []
  · simp [hnil]
  · obtain ⟨hne, hwithin⟩ := not_or.mp (mt texts_usablePrefixes_eq_nil_iff.mpr hnil)
    exact Nat.le_trans (length_usablePrefixes_le_prod conditions info config)
      (prod_le_of_not_pastCap hne hwithin h)

/-! ### Key ranges -/

/-- The limit of splits is below the last word, or else a word holds the number of prefixes with a salt
byte each. -/
def RangesFit (config : PlannerConfig) (conditions : List Condition) (info : TableMeta) : Prop :=
  config.maxSplitCount < Word.last ∨
    ∀ salt ∈ info.salt,
      salt.size * (usablePrefixes conditions info config).texts.length < UInt64.size

theorem length_saltBucketRanges_le {salt : Salt} {ranges : List KeyRange}
    (h : saltBucketRanges salt bounds config = .ok ranges) : ranges.length ≤ salt.size := by
  obtain ⟨buckets, hbuckets, h⟩ := bind_eq_ok_iff.mp h
  obtain rfl := Except.ok.inj h
  have hlength : buckets.length ≤ salt.size := Buckets.length_partition_le hbuckets
  rw [List.length_map]
  split
  · exact hlength
  · split
    · exact Nat.le_trans (List.length_filterMap_le _ _) hlength
    · exact Nat.zero_le _

theorem length_saltedPrefixRanges_le (salt : Salt) (prefixes : Prefixes) (separator : Key) :
    (saltedPrefixRanges salt prefixes separator).length ≤ salt.size * prefixes.texts.length := by
  rw [saltedPrefixRanges, List.length_flatMap]
  simp only [List.length_map, List.map_const', List.sum_replicate_nat]
  rw [Nat.mul_comm]
  exact Nat.mul_le_mul_right _ salt.length_bytes_le

/-- The units of a scan are its ranges, of which narrowing leaves no more than there were. -/
theorem exists_outer_of_rangeUnits {units : List PlannedUnit}
    (h : rangeUnits config conditions info = .ok units) :
    ∃ outer, outerRanges (usablePrefixes conditions info config)
        (KeyBounds.ofConditions conditions info) info config = .ok outer ∧
      units.length ≤ outer.length := by
  cases hranges : planKeyRanges conditions info config with
  | error error => simp [rangeUnits, hranges, Except.map] at h
  | ok ranges =>
      obtain ⟨outer, houter, rfl⟩ := exists_outer_of_planKeyRanges hranges
      obtain rfl : _ = units := by simpa [rangeUnits, hranges, Except.map] using h
      refine ⟨outer, houter, ?_⟩
      rw [List.length_map]
      exact List.length_filterMap_le _ _

theorem length_rangeUnits_le_of_salt {salt : Salt} {units : List PlannedUnit}
    (hsalt : info.salt = some salt) (h : rangeUnits config conditions info = .ok units)
    (hfits : RangesFit config conditions info) :
    units.length ≤ max config.maxSplitCount salt.size := by
  obtain ⟨outer, houter, hlength⟩ := exists_outer_of_rangeUnits h
  refine Nat.le_trans hlength ?_
  simp only [outerRanges, hsalt] at houter
  split at houter
  · exact Nat.le_trans (length_saltBucketRanges_le houter) (Nat.le_max_right _ _)
  · rename_i hfew
    obtain rfl := Except.ok.inj houter
    simp only [Bool.or_eq_true, decide_eq_true_eq, not_or, Nat.not_lt] at hfew
    have hproduct := Word.mul_le_and_lt_of_saturatingMul_le hfew.2
      (hfits.imp_right fun hall => hall salt hsalt)
    exact Nat.le_trans (length_saltedPrefixRanges_le ..)
      (Nat.le_trans hproduct.1 (Nat.le_max_left _ _))

/-- Without salt there is a range for each prefix, or one for all keys. -/
theorem length_rangeUnits_le_of_no_salt {units : List PlannedUnit} (hsalt : info.salt = none)
    (h : rangeUnits config conditions info = .ok units) :
    if (usablePrefixes conditions info config).texts = [] then units.length ≤ 1
    else PrefixesFit config conditions info → units.length ≤ config.maxPrefixExpansion := by
  obtain ⟨outer, houter, hlength⟩ := exists_outer_of_rangeUnits h
  simp only [outerRanges, hsalt] at houter
  by_cases htexts : (usablePrefixes conditions info config).texts = []
  · rw [if_pos htexts] at houter ⊢
    obtain rfl := Except.ok.inj houter
    exact hlength
  · rw [if_neg htexts] at houter ⊢
    obtain rfl := Except.ok.inj houter
    rw [prefixRanges, List.length_map] at hlength
    exact fun hfits => Nat.le_trans hlength (length_usablePrefixes_le hfits)

/-- Planning the ranges succeeds. -/
theorem exists_rangeUnits (hcount : config.saltBucketCount ≠ 0) (conditions : List Condition)
    (info : TableMeta) : ∃ units, rangeUnits config conditions info = .ok units := by
  obtain ⟨outer, houter⟩ := exists_outerRanges_eq_ok hcount
    (usablePrefixes conditions info config) info (KeyBounds.ofConditions conditions info)
  exact ⟨_, by rw [rangeUnits, planKeyRanges, houter]; rfl⟩

/-! ### Plans -/

theorem selectStrategy_of_disabled {config : Config} (h : config.regionLocal.enabled = false)
    (conditions : List Condition) (info : TableMeta) :
    selectStrategy config conditions info = .batchGet ∨
      selectStrategy config conditions info = .keyRange := by
  rw [selectStrategy]
  split
  · exact Or.inl rfl
  · simp [RegionLocalConfig.allows, h]

/-- How many splits a plan that reads no regions may have. Whether products fit is open for a limit of
the last word alone. -/
def WithinLimits (config : Config) (conditions : List Condition) (info : TableMeta) (count : Nat) :
    Prop :=
  match selectStrategy config conditions info, info.salt with
  | .batchGet, _ => count ≤ config.planner.maxBatches
  | .keyRange, some salt =>
      RangesFit config.planner conditions info → count ≤ max config.planner.maxSplitCount salt.size
  | .keyRange, none =>
      if (usablePrefixes conditions info config.planner).texts = [] then count ≤ 1
      else
        PrefixesFit config.planner conditions info → count ≤ config.planner.maxPrefixExpansion
  | .regionLocal, _ => False

/-- A valid configuration without regions plans the units of any read, within its limits. -/
theorem exists_planUnits {config : Config} (hconfig : config.fault? = none)
    (hregions : config.regionLocal.enabled = false) {σ : Type} (source : RegionSource σ)
    (conditions : List Condition) (info : TableMeta) (state : σ) :
    ∃ units, planUnits config source conditions info state = (.ok units, state) ∧
      WithinLimits config conditions info units.length := by
  rcases selectStrategy_of_disabled hregions conditions info with hstrategy | hstrategy
  · refine ⟨_, by rw [planUnits, hstrategy], ?_⟩
    rw [WithinLimits, hstrategy]
    exact length_batchUnits_le (Config.maxBatches_ne_zero hconfig) conditions info
  · obtain ⟨units, hunits⟩ :=
      exists_rangeUnits (Config.saltBucketCount_ne_zero hconfig) conditions info
    refine ⟨units, by rw [planUnits, hstrategy, hunits], ?_⟩
    rw [WithinLimits, hstrategy]
    cases hsalt : info.salt with
    | some salt => exact length_rangeUnits_le_of_salt hsalt hunits
    | none => exact length_rangeUnits_le_of_no_salt hsalt hunits

/-- A valid configuration plans any read of valid metadata, given regions where it asks for them. -/
theorem exists_planWith_eq_ok {config : Config} (hconfig : config.fault? = none) {info : TableMeta}
    (hinfo : info.validate = .ok ()) {σ : Type} {source : RegionSource σ}
    (hsource : ∀ state, ∃ found next, source info.schema info.table state = (.ok found, next))
    (shuffle : List Split → List Split) (conditions : List Condition) (state : σ) :
    ∃ splits next, planWith config source shuffle conditions info state = (.ok splits, next) := by
  obtain ⟨units, next, hunits⟩ : ∃ units next,
      planUnits config source conditions info state = (.ok units, next) := by
    rw [planUnits]
    cases selectStrategy config conditions info with
    | batchGet => exact ⟨_, state, rfl⟩
    | keyRange =>
        obtain ⟨units, hunits⟩ :=
          exists_rangeUnits (Config.saltBucketCount_ne_zero hconfig) conditions info
        exact ⟨units, state, by rw [hunits]⟩
    | regionLocal =>
        obtain ⟨found, next, hfound⟩ := hsource state
        exact ⟨_, next, by rw [hfound]; rfl⟩
  exact ⟨_, next, planWith_eq_ok_iff.mpr ⟨hinfo, units, hunits, rfl⟩⟩

end Planning

end KeyScan
