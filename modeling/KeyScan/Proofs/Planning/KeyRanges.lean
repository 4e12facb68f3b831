import KeyScan.Proofs.Planning.Expansion
import KeyScan.Proofs.Planning.KeyBounds
import KeyScan.Proofs.Salt.Buckets

/-! # Coverage of the planned key ranges

Without prefixes the planned ranges do not overlap, and together they hold the keys of the hull, on
a salted table those that begin with a salt byte. -/

namespace KeyScan

open KeyRange

/-- On a salted table the key begins with a salt byte. -/
def TableMeta.admitsSalt (info : TableMeta) (key : Key) : Bool :=
  info.salt.all fun salt => key.head?.any salt.bytes.contains

/-- In how many ranges of the salt the first byte of the key lies; one on a table without salt. -/
def TableMeta.saltCount (info : TableMeta) (key : Key) : Nat :=
  match info.salt with
  | none => 1
  | some salt => salt.ranges.countP fun range => key.head?.any range.contains

/-! ### First bytes -/

namespace TableMeta

variable {info : TableMeta}

/-- Where no ranges of the salt overlap, the first byte lies in one of them if the salt admits it. -/
theorem saltCount_eq (h : ∀ salt ∈ info.salt, salt.ranges.Pairwise CharRange.Apart) (key : Key) :
    info.saltCount key = if info.admitsSalt key then 1 else 0 := by
  unfold saltCount admitsSalt
  cases hinfo : info.salt with
  | none => rfl
  | some salt =>
      cases key with
      | nil => simp
      | cons byte rest => simpa using Salt.countP_contains_of_apart (h salt hinfo) byte

end TableMeta

namespace KeyBounds

private theorem head?_le_of_le {start rest : Key} {byte : UInt8} (h : start ≤ byte :: rest) :
    start.head?.getD 0 ≤ byte := by
  cases start with
  | nil =>
      rw [UInt8.le_iff_toNat_le]
      exact Nat.zero_le _
  | cons first start =>
      rw [List.cons_le_cons_iff] at h
      change first ≤ byte
      grind

private theorem exists_head?_of_lt {stop rest : Key} {byte : UInt8} (h : byte :: rest < stop) :
    ∃ last, stop.head? = some last ∧ byte ≤ last := by
  cases stop with
  | nil => simp at h
  | cons last stop =>
      rw [List.cons_lt_cons_iff] at h
      exact ⟨last, rfl, by grind⟩

/-- The window of first bytes holds the first byte of every key within the bounds. -/
theorem exists_firstByteWindow {bounds : KeyBounds} {byte : UInt8} {rest : Key}
    (h : byte :: rest ∈ bounds.keyRange) :
    ∃ window, bounds.firstByteWindow = some window ∧ window.contains byte = true := by
  obtain ⟨lower, upper⟩ := bounds
  obtain ⟨hlower, hupper⟩ := mem_iff.mp h
  have hfirst : (lower.bind List.head?).getD 0 ≤ byte := by
    cases lower with
    | none =>
        rw [UInt8.le_iff_toNat_le]
        exact Nat.zero_le _
    | some start => exact head?_le_of_le (hlower start rfl)
  cases upper with
  | none =>
      have hlast : byte ≤ 255 := Key.byte_le_of_not_lt (by decide)
      refine ⟨⟨(lower.bind List.head?).getD 0, 255⟩, ?_, ?_⟩
      · simp [firstByteWindow, Std.le_trans hfirst hlast]
      · simp [CharRange.contains, hfirst, hlast]
  | some stop =>
      obtain ⟨last, hhead, hlast⟩ := exists_head?_of_lt (hupper stop rfl)
      refine ⟨⟨(lower.bind List.head?).getD 0, last⟩, ?_, ?_⟩
      · simp [firstByteWindow, hhead, Std.le_trans hfirst hlast]
      · simp [CharRange.contains, hfirst, hlast]

end KeyBounds

theorem Config.rule_of_fault?_eq_none {config : Config} (h : config.fault? = none) :
    ∀ rule ∈ config.rules, rule.1 = false := by
  simpa [fault?] using h

/-- A valid configuration asks for at least one bucket. -/
theorem Config.saltBucketCount_ne_zero {config : Config} (h : config.fault? = none) :
    config.planner.saltBucketCount ≠ 0 := by
  intro hzero
  have hrule := rule_of_fault?_eq_none h (config.planner.saltBucketCount = 0,
    "planner.salt_bucket_count must be > 0") (by simp [rules])
  simp [hzero] at hrule

namespace Planning

variable {conditions : List Condition} {info : TableMeta} {config : PlannerConfig}
  {salt : Salt} {prefixes : Prefixes} {bounds : KeyBounds} {key : Key}

/-! ### Salt buckets -/

/-- A key within the bounds lies in as many bucket ranges as its first byte lies in buckets:
clipping to the window of the bounds does not concern it. -/
theorem exists_saltBucketRanges_of_buckets (hcount : config.saltBucketCount ≠ 0) (salt : Salt)
    (bounds : KeyBounds) :
    ∃ buckets ranges, Buckets.partition salt.ranges config.saltBucketCount = .ok buckets ∧
      saltBucketRanges salt bounds config = .ok ranges ∧
      ∀ key ∈ bounds.keyRange, coverCount ranges key =
        buckets.countP fun bucket => key.head?.any bucket.contains := by
  obtain ⟨buckets, hbuckets⟩ : ∃ buckets,
      Buckets.partition salt.ranges config.saltBucketCount = .ok buckets := by
    rw [Buckets.partition]
    rw [if_neg hcount]
    exact ⟨_, rfl⟩
  refine ⟨buckets, _, hbuckets, by rw [saltBucketRanges, hbuckets]; rfl, ?_⟩
  intro key hkey
  rw [Buckets.coverCount_map_keyRange]
  cases key with
  | nil => simp
  | cons byte rest =>
      simp only [List.head?_cons, Option.any_some]
      split
      · rfl
      · obtain ⟨window, hwindow, hcontains⟩ := KeyBounds.exists_firstByteWindow hkey
        rw [hwindow]
        simp only
        rw [Buckets.countP_clip, if_pos hcontains]

/-- A key within the bounds lies in as many bucket ranges as its first byte lies in salt ranges, if
none of these is crossed. -/
theorem exists_saltBucketRanges (hcount : config.saltBucketCount ≠ 0)
    (hordered : ∀ range ∈ salt.ranges, range.first ≤ range.last) (bounds : KeyBounds) :
    ∃ ranges, saltBucketRanges salt bounds config = .ok ranges ∧
      ∀ key ∈ bounds.keyRange, coverCount ranges key =
        salt.ranges.countP fun range => key.head?.any range.contains := by
  obtain ⟨buckets, ranges, hbuckets, hranges, hcover⟩ :=
    exists_saltBucketRanges_of_buckets hcount salt bounds
  refine ⟨ranges, hranges, fun key hkey => (hcover key hkey).trans ?_⟩
  cases key with
  | nil => simp
  | cons byte rest => exact Buckets.countP_partition hordered hbuckets byte

/-! ### Plans without prefixes -/

/-- Prefixes start with equalities on the first component. -/
theorem texts_usablePrefixes_eq_nil (config : PlannerConfig)
    (h : ∀ component ∈ info.rowKeyFormat.components.head?,
      ∀ c ∈ conditions, c.isEqualityOn component = false) :
    (usablePrefixes conditions info config).texts = [] := by
  have hleading : leadingTexts conditions info.rowKeyFormat.components = [] := by
    cases hcomponents : info.rowKeyFormat.components with
    | nil => rfl
    | cons component rest =>
        have hundetermined : ¬ Determined conditions component := by
          rintro ⟨⟨c, hc, hequality⟩, _⟩
          simp [h component (by simp [hcomponents]) c hc] at hequality
        simp [leadingTexts_eq, hundetermined]
  exact texts_usablePrefixes_eq_nil_iff.mpr (Or.inl hleading)

/-- Ranges are made from the prefixes: there are some and, on a salted table, no more of them with a
salt byte each than splits are allowed. -/
def UsesPrefixes (prefixes : Prefixes) (info : TableMeta) (config : PlannerConfig) : Prop :=
  prefixes.texts ≠ [] ∧
    ∀ salt ∈ info.salt, Word.saturatingMul salt.size prefixes.texts.length ≤ config.maxSplitCount

instance : Decidable (UsesPrefixes prefixes info config) :=
  inferInstanceAs (Decidable (_ ∧ _))

theorem exists_outerRanges_eq_ok (hcount : config.saltBucketCount ≠ 0) (prefixes : Prefixes)
    (info : TableMeta) (bounds : KeyBounds) :
    ∃ outer, outerRanges prefixes bounds info config = .ok outer := by
  unfold outerRanges
  cases info.salt with
  | none => by_cases htexts : prefixes.texts = [] <;> simp [htexts]
  | some salt =>
      simp only
      split
      · obtain ⟨_, ranges, _, hranges, _⟩ :=
          exists_saltBucketRanges_of_buckets hcount salt bounds
        exact ⟨ranges, hranges⟩
      · exact ⟨_, rfl⟩

/-- Planned ranges are other ranges narrowed to the hull. -/
theorem exists_outer_of_planKeyRanges {ranges : List KeyRange}
    (h : planKeyRanges conditions info config = .ok ranges) :
    ∃ outer, outerRanges (usablePrefixes conditions info config)
        (KeyBounds.ofConditions conditions info) info config = .ok outer ∧
      ranges = outer.filterMap fun range =>
        range.intersect (KeyBounds.ofConditions conditions info).keyRange := by
  obtain ⟨outer, houter, h⟩ := bind_eq_ok_iff.mp h
  exact ⟨outer, houter, (Except.ok.inj h).symm⟩

/-- Prefixes that are not used are as good as none. -/
theorem outerRanges_of_not_usesPrefixes (h : ¬ UsesPrefixes prefixes info config)
    (bounds : KeyBounds) :
    outerRanges prefixes bounds info config = outerRanges {} bounds info config := by
  rw [UsesPrefixes] at h
  rw [outerRanges, outerRanges]
  cases hinfo : info.salt with
  | none =>
      have htexts : prefixes.texts = [] := by simpa [hinfo] using h
      simp [htexts]
  | some salt =>
      have hmany : prefixes.texts = [] ∨
          config.maxSplitCount < Word.saturatingMul salt.size prefixes.texts.length := by
        simp only [hinfo, Option.mem_some_iff, forall_eq'] at h
        grind
      simp [hmany]

/-- Without prefixes a key within the bounds lies in as many ranges as its first byte lies in ranges
of the salt, and in one on a table without salt. Crossed ranges of the salt may add to it. -/
theorem coverCount_outerRanges (huses : ¬ UsesPrefixes prefixes info config)
    {outer : List KeyRange} (h : outerRanges prefixes bounds info config = .ok outer)
    (hkey : key ∈ bounds.keyRange) :
    info.saltCount key ≤ coverCount outer key ∧
      ((∀ salt ∈ info.salt, ∀ range ∈ salt.ranges, range.first ≤ range.last) →
        coverCount outer key = info.saltCount key) := by
  rw [outerRanges_of_not_usesPrefixes huses, outerRanges] at h
  rw [TableMeta.saltCount]
  cases hinfo : info.salt with
  | none =>
      obtain rfl : [KeyRange.unbounded] = outer := by simpa [hinfo] using h
      simp [coverCount]
  | some salt =>
      have hbucketed : saltBucketRanges salt bounds config = .ok outer := by
        simpa [hinfo] using h
      have hcount : config.saltBucketCount ≠ 0 := by
        intro hzero
        rw [saltBucketRanges, Buckets.partition, if_pos hzero] at hbucketed
        simp [bind, Except.bind] at hbucketed
      obtain ⟨buckets, ranges, hbuckets, hranges, hcover⟩ :=
        exists_saltBucketRanges_of_buckets hcount salt bounds
      obtain rfl := Except.ok.inj (hbucketed.symm.trans hranges)
      rw [hcover key hkey]
      cases key with
      | nil => simp
      | cons byte rest =>
          refine ⟨Buckets.countP_le_countP_partition hbuckets byte, fun hordered => ?_⟩
          exact Buckets.countP_partition (hordered salt rfl) hbuckets byte

/-- Where a plan does not go by prefixes, it succeeds, and a key within the hull lies in as many
planned ranges as its first byte lies in ranges of the salt. -/
theorem exists_planKeyRanges_of_not_usesPrefixes (hcount : config.saltBucketCount ≠ 0)
    (hordered : ∀ salt ∈ info.salt, ∀ range ∈ salt.ranges, range.first ≤ range.last)
    (huses : ¬ UsesPrefixes (usablePrefixes conditions info config) info config) :
    ∃ ranges, planKeyRanges conditions info config = .ok ranges ∧
      ∀ key, coverCount ranges key =
        if key ∈ (KeyBounds.ofConditions conditions info).keyRange then info.saltCount key
        else 0 := by
  obtain ⟨outer, houter⟩ := exists_outerRanges_eq_ok hcount (usablePrefixes conditions info config)
    info (KeyBounds.ofConditions conditions info)
  refine ⟨_, by rw [planKeyRanges, houter]; rfl, ?_⟩
  intro key
  rw [coverCount_narrow]
  by_cases hkey : key ∈ (KeyBounds.ofConditions conditions info).keyRange
  · rw [if_pos hkey, if_pos hkey, (coverCount_outerRanges huses houter hkey).2 hordered]
  · rw [if_neg hkey, if_neg hkey]

/-- Where there are no prefixes, planning succeeds, and a key lies in one of the planned ranges if
the hull and the salt admit it and in none if not. -/
theorem exists_planKeyRanges (hcount : config.saltBucketCount ≠ 0)
    (hsalt : ∀ salt ∈ info.salt, salt.Valid)
    (htexts : (usablePrefixes conditions info config).texts = []) :
    ∃ ranges, planKeyRanges conditions info config = .ok ranges ∧
      ∀ key, coverCount ranges key =
        if key ∈ (KeyBounds.ofConditions conditions info).keyRange ∧ info.admitsSalt key then 1
        else 0 := by
  obtain ⟨ranges, hranges, hcover⟩ := exists_planKeyRanges_of_not_usesPrefixes hcount
    (fun salt hinfo => (hsalt salt hinfo).ordered) fun huses => huses.1 htexts
  refine ⟨ranges, hranges, fun key => ?_⟩
  rw [hcover, TableMeta.saltCount_eq fun salt hinfo => (hsalt salt hinfo).pairwise_apart]
  split <;> simp_all

/-- Buckets of a salt are an exact cover: a key that begins with a salt byte and lies within the hull
is in one planned range, and any other key, the empty one included, is in none. -/
theorem planKeyRanges_buckets_cover (hsalt : info.salt = some salt)
    (hordered : ∀ range ∈ salt.ranges, range.first ≤ range.last)
    (hapart : salt.ranges.Pairwise CharRange.Apart) (hcount : 0 < config.saltBucketCount)
    (huses : ¬ UsesPrefixes (usablePrefixes conditions info config) info config) :
    ∃ ranges, planKeyRanges conditions info config = .ok ranges ∧
      ∀ key, coverCount ranges key =
        if (∃ byte ∈ key.head?, byte ∈ salt.bytes) ∧
          key ∈ (KeyBounds.ofConditions conditions info).keyRange then 1 else 0 := by
  obtain ⟨ranges, hranges, hcover⟩ := exists_planKeyRanges_of_not_usesPrefixes
    (Nat.ne_of_gt hcount) (by simpa [hsalt] using hordered) huses
  refine ⟨ranges, hranges, fun key => ?_⟩
  have hadmits : info.admitsSalt key = true ↔ ∃ byte ∈ key.head?, byte ∈ salt.bytes := by
    cases key <;> simp [TableMeta.admitsSalt, hsalt]
  rw [hcover, TableMeta.saltCount_eq (by simpa [hsalt] using hapart)]
  by_cases hkey : key ∈ (KeyBounds.ofConditions conditions info).keyRange <;>
    simp [hkey, hadmits]

/-- Visits by country and user after salt bytes from both ends of the alphabet. -/
def spreadVisits : TableMeta where
  schema := "web"
  table := "visits"
  rowKeyColumn := "visit"
  rowKeyFormat := ⟨["country", "user"], "-"⟩
  salt := some ⟨[⟨250, 255⟩, ⟨97, 98⟩]⟩
  columns := [.rowKey "visit"]

/-- Two countries after eight salt bytes, in keys past a bound within a bucket. -/
def visitsPast : List Condition :=
  [.equals "country" (.varchar "cz"), .equals "country" (.varchar "de"),
    ⟨"visit", .gt, .varchar "a-cz", .varchar⟩]

/-- Sixteen ranges are too many, so keys of other countries are scanned too. -/
theorem planKeyRanges_buckets_cover_visits :
    ∃ ranges, planKeyRanges visitsPast spreadVisits { maxSplitCount := 10, saltBucketCount := 3 } =
        .ok ranges ∧
      coverCount ranges (255 :: Key.ofText "-at-7") = 1 ∧
      coverCount ranges (Key.ofText "a-cz-7") = 1 ∧
      coverCount ranges (Key.ofText "a-cz") = 0 ∧ coverCount ranges [] = 0 := by
  obtain ⟨ranges, hranges, hcover⟩ := @planKeyRanges_buckets_cover visitsPast spreadVisits
    { maxSplitCount := 10, saltBucketCount := 3 } ⟨[⟨250, 255⟩, ⟨97, 98⟩]⟩ rfl (by decide)
    (by decide) (by decide) (by decide)
  refine ⟨ranges, hranges, ?_⟩
  simp only [hcover]
  decide

end Planning

end KeyScan
