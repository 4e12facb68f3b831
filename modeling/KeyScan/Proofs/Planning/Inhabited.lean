import KeyScan.Proofs.Key.Overlap
import KeyScan.Proofs.Planning.Disjoint
import KeyScan.Proofs.Planning.KeyBounds
import KeyScan.Proofs.Scalar.Order

/-! # Planned ranges that hold no key

Ranges that the hull leaves no key are dropped by their ends, and a range that is open below has none
to drop it by. One planned range can be left so without a key: the whole key space of a table without
salt, narrowed to a hull that ends at the empty text. -/

namespace KeyScan

open KeyRange

/-! ### Ranges without keys -/

namespace KeyRange

/-- Nothing comes before the empty key. -/
def beforeAll : KeyRange := ⟨none, some []⟩

theorem not_mem_beforeAll (key : Key) : key ∉ beforeAll := by
  simp [mem_iff, beforeAll]

/-- Of the ranges that are not crossed, only the one before all keys holds none. -/
theorem exists_mem_iff_of_not_isCrossed {range : KeyRange} (h : range.isCrossed = false) :
    (∃ key, key ∈ range) ↔ range ≠ beforeAll := by
  constructor
  · rintro ⟨key, hkey⟩ rfl
    exact not_mem_beforeAll key hkey
  · intro hne
    obtain ⟨start, stop⟩ := range
    cases start with
    | some start => exact ⟨start, start_mem_of_not_isCrossed h rfl⟩
    | none =>
        refine ⟨[], ?_⟩
        cases stop with
        | none => simp [mem_iff]
        | some stop =>
            cases stop with
            | nil => exact absurd rfl hne
            | cons byte rest => simp [mem_iff]

theorem intersect_unbounded (range : KeyRange) :
    unbounded.intersect range = if range.isCrossed then none else some range :=
  rfl

end KeyRange

/-! ### Hulls without keys -/

theorem Key.ofText_eq_nil_iff {text : String} : Key.ofText text = [] ↔ text = "" := by
  have hnil : Key.ofText "" = [] := by rfl
  rw [← hnil, Key.ofText_inj]

namespace KeyBounds

/-- The row-key conditions bound the key from above by the empty text alone, and not from below. -/
structure EndsBeforeAll (rowKey : List Condition) : Prop where
  inequalities : ∀ c ∈ rowKey, c.operator ≠ .eq
  first : ∀ c ∈ rowKey.head?, c.operator.isLowerBound = false
  last : ∃ c ∈ rowKey.getLast?, c.operator.isUpperBound = true
  empty : ∀ c ∈ rowKey, c.operator.isUpperBound = true → c.operator = .lt ∧ c.value.text = ""

theorem stopKey_eq_nil_iff {c : Condition} (h : c.operator.isUpperBound = true) :
    stopKey c = [] ↔ c.operator = .lt ∧ c.value.text = "" := by
  rw [stopKey]
  cases hoperator : c.operator <;>
    simp_all [Operator.isUpperBound, Key.successor, Scalar.key, Key.ofText_eq_nil_iff]

variable {rowKey : List Condition}

theorem lower_eq_none_iff (h : ∀ c ∈ rowKey, c.operator ≠ .eq) :
    (ofRowKeyConditions rowKey).lower = none ↔
      ∀ c ∈ rowKey.head?, c.operator.isLowerBound = false := by
  rw [ofRowKeyConditions, if_neg (by simpa using h)]
  cases rowKey with
  | nil => simp
  | cons first rest =>
      cases hfirst : first.operator.isLowerBound <;> simp [hfirst, smallest?]

theorem upper_eq_some_nil_iff (h : ∀ c ∈ rowKey, c.operator ≠ .eq) :
    (ofRowKeyConditions rowKey).upper = some [] ↔
      (∃ c ∈ rowKey.getLast?, c.operator.isUpperBound = true) ∧
        ∀ c ∈ rowKey, c.operator.isUpperBound = true → c.operator = .lt ∧ c.value.text = "" := by
  rw [ofRowKeyConditions, if_neg (by simpa using h)]
  simp only [Option.ite_none_right_eq_some, largest?_eq_some_nil_iff, Option.any_eq_true,
    List.forall_mem_map, List.mem_filter, ne_eq, List.map_eq_nil_iff, List.filter_eq_nil_iff]
  constructor
  · rintro ⟨hlast, _, hall⟩
    exact ⟨hlast, fun c hc hupper => (stopKey_eq_nil_iff hupper).mp (hall c ⟨hc, hupper⟩)⟩
  · rintro ⟨⟨c, hc, hupper⟩, hall⟩
    refine ⟨⟨c, hc, hupper⟩, ?_, ?_⟩
    · intro hnone
      exact hnone c (List.mem_of_getLast? hc) hupper
    · rintro c ⟨hc, hupper⟩
      exact (stopKey_eq_nil_iff hupper).mpr (hall c hc hupper)

theorem ofRowKeyConditions_endsBeforeAll_iff :
    (ofRowKeyConditions rowKey).keyRange = beforeAll ↔ EndsBeforeAll rowKey := by
  by_cases hequality : ∃ c ∈ rowKey, c.operator = .eq
  · obtain ⟨c, hc, heq⟩ := hequality
    rw [ofRowKeyConditions_of_equality hc heq]
    exact iff_of_false (by decide) fun hends => hends.inequalities c hc heq
  · have hinequalities : ∀ c ∈ rowKey, c.operator ≠ .eq :=
      fun c hc heq => hequality ⟨c, hc, heq⟩
    rw [keyRange, beforeAll, KeyRange.mk.injEq, lower_eq_none_iff hinequalities,
      upper_eq_some_nil_iff hinequalities]
    constructor
    · rintro ⟨hfirst, hlast, hempty⟩
      exact ⟨hinequalities, hfirst, hlast, hempty⟩
    · rintro ⟨_, hfirst, hlast, hempty⟩
      exact ⟨hfirst, hlast, hempty⟩

theorem ofConditions_endsBeforeAll_iff {conditions : List Condition} {info : TableMeta} :
    (ofConditions conditions info).keyRange = beforeAll ↔
      info.rowKeyType = .varchar ∧
        EndsBeforeAll (conditionsOn info.rowKeyColumn conditions) := by
  rw [ofConditions]
  split
  · rename_i htype
    rw [ofRowKeyConditions_endsBeforeAll_iff]
    simp [htype]
  · rename_i htype
    exact iff_of_false (by decide) fun hends => htype hends.1

end KeyBounds

/-! ### Planned ranges without keys -/

namespace Planning

variable {conditions : List Condition} {info : TableMeta} {config : PlannerConfig}
  {prefixes : Prefixes} {bounds : KeyBounds} {range : KeyRange} {outer ranges : List KeyRange}

theorem exists_start_of_mem_saltBucketRanges {salt : Salt}
    (h : saltBucketRanges salt bounds config = .ok outer) (hrange : range ∈ outer) :
    ∃ start, range.start = some start := by
  obtain ⟨_, _, h⟩ := bind_eq_ok_iff.mp h
  obtain rfl := Except.ok.inj h
  obtain ⟨bucket, _, rfl⟩ := List.mem_map.mp hrange
  exact ⟨[bucket.first], rfl⟩

/-- A range has a start before it is narrowed, unless it is the whole key space. -/
theorem exists_start_of_mem_outerRanges
    (h : outerRanges prefixes bounds info config = .ok outer) (hrange : range ∈ outer) :
    (∃ start, range.start = some start) ∨
      range = .unbounded ∧ info.salt = none ∧ prefixes.texts = [] := by
  by_cases huses : UsesPrefixes prefixes info config
  · rw [outerRanges_of_usesPrefixes huses] at h
    obtain rfl := Except.ok.inj h
    obtain ⟨pair, _, rfl⟩ := List.mem_map.mp hrange
    exact Or.inl ⟨_, start_prefixRange prefixes _ _⟩
  · rw [outerRanges_of_not_usesPrefixes huses, outerRanges] at h
    cases hsalt : info.salt with
    | none =>
        have htexts : prefixes.texts = [] := by simpa [UsesPrefixes, hsalt] using huses
        obtain rfl : [KeyRange.unbounded] = outer := by simpa [hsalt] using h
        exact Or.inr ⟨List.mem_singleton.mp hrange, rfl, htexts⟩
    | some salt =>
        have hbuckets : saltBucketRanges salt bounds config = .ok outer := by
          simpa [hsalt] using h
        exact Or.inl (exists_start_of_mem_saltBucketRanges hbuckets hrange)

/-- The range before all keys is planned where the whole key space is narrowed to it. -/
theorem beforeAll_mem_iff (h : planKeyRanges conditions info config = .ok ranges) :
    beforeAll ∈ ranges ↔
      info.salt = none ∧ (usablePrefixes conditions info config).texts = [] ∧
        (KeyBounds.ofConditions conditions info).keyRange = beforeAll := by
  obtain ⟨outer, houter, rfl⟩ := exists_outer_of_planKeyRanges h
  rw [List.mem_filterMap]
  constructor
  · rintro ⟨range, hrange, hnarrow⟩
    rcases exists_start_of_mem_outerRanges houter hrange with
      ⟨start, hstart⟩ | ⟨rfl, hsalt, htexts⟩
    · obtain ⟨key, hkey⟩ := exists_mem_of_intersect hstart hnarrow
      exact absurd hkey (not_mem_beforeAll key)
    · refine ⟨hsalt, htexts, ?_⟩
      rw [intersect_unbounded, Option.ite_none_left_eq_some] at hnarrow
      exact Option.some.inj hnarrow.2
  · rintro ⟨hsalt, htexts, hhull⟩
    obtain rfl : [KeyRange.unbounded] = outer := by simpa [outerRanges, hsalt, htexts] using houter
    refine ⟨.unbounded, List.mem_singleton_self _, ?_⟩
    rw [hhull]
    rfl

/-- Every planned range holds a key, unless the whole key space is narrowed to the keys before the
empty text. -/
theorem planKeyRanges_inhabited_iff (hcount : 0 < config.saltBucketCount)
    (conditions : List Condition) (info : TableMeta) :
    ∃ ranges, planKeyRanges conditions info config = .ok ranges ∧
      ((∀ range ∈ ranges, ∃ key, key ∈ range) ↔
        ¬ (info.salt = none ∧ (usablePrefixes conditions info config).texts = [] ∧
          info.rowKeyType = .varchar ∧
            KeyBounds.EndsBeforeAll (conditionsOn info.rowKeyColumn conditions))) := by
  obtain ⟨outer, houter⟩ := exists_outerRanges_eq_ok (Nat.ne_of_gt hcount)
    (usablePrefixes conditions info config) info (KeyBounds.ofConditions conditions info)
  have hplan : planKeyRanges conditions info config =
      .ok (outer.filterMap fun range =>
        range.intersect (KeyBounds.ofConditions conditions info).keyRange) := by
    rw [planKeyRanges, houter]
    rfl
  refine ⟨_, hplan, ?_⟩
  rw [← KeyBounds.ofConditions_endsBeforeAll_iff, ← beforeAll_mem_iff hplan]
  have hcrossed : ∀ range ∈ outer.filterMap (fun range =>
      range.intersect (KeyBounds.ofConditions conditions info).keyRange),
      range.isCrossed = false := by
    intro range hrange
    obtain ⟨_, _, hnarrow⟩ := List.mem_filterMap.mp hrange
    exact isCrossed_of_intersect hnarrow
  constructor
  · intro hall hmem
    obtain ⟨key, hkey⟩ := hall _ hmem
    exact not_mem_beforeAll key hkey
  · intro hnot range hrange
    rw [exists_mem_iff_of_not_isCrossed (hcrossed range hrange)]
    rintro rfl
    exact hnot hrange

/-- Visits by country and user, without salt. -/
def plainVisits : TableMeta :=
  { visitKeys with salt := none }

/-- Up to the empty text there is one key, the empty one. -/
theorem planKeyRanges_inhabited_plainVisits :
    ∃ ranges, planKeyRanges [⟨"visit", .le, .varchar "", .varchar⟩] plainVisits {} = .ok ranges ∧
      ranges = [⟨none, some [0]⟩] ∧ ∀ range ∈ ranges, ∃ key, key ∈ range := by
  obtain ⟨ranges, hplan, hinhabited⟩ := @planKeyRanges_inhabited_iff {} (by decide)
    [⟨"visit", .le, .varchar "", .varchar⟩] plainVisits
  have hranges : planKeyRanges [⟨"visit", .le, .varchar "", .varchar⟩] plainVisits {} =
      .ok [⟨none, some [0]⟩] := by rfl
  refine ⟨ranges, hplan, Except.ok.inj (hplan.symm.trans hranges), hinhabited.mpr ?_⟩
  rintro ⟨_, _, _, hends⟩
  exact absurd (hends.empty ⟨"visit", .le, .varchar "", .varchar⟩ (by decide) rfl).1 (by decide)

/-- Before the empty text there is none, and the range is planned. -/
theorem planKeyRanges_not_inhabited :
    plainVisits.validate = .ok () ∧ 0 < ({} : PlannerConfig).saltBucketCount ∧
      ∃ ranges, planKeyRanges [⟨"visit", .lt, .varchar "", .varchar⟩] plainVisits {} =
          .ok ranges ∧
        ∃ range ∈ ranges, ∀ key, key ∉ range :=
  ⟨by rfl, by decide, _, rfl, beforeAll, List.mem_singleton_self _, not_mem_beforeAll⟩

/-- With salt no range is left of the same conditions. -/
example : planKeyRanges [⟨"visit", .lt, .varchar "", .varchar⟩] visitKeys {} = .ok [] := by
  rfl

end Planning

end KeyScan
