import KeyScan.Proofs.Planning.Disjoint
import KeyScan.Proofs.Planning.Limits
import KeyScan.Proofs.Planning.Words

/-! # Plans in machine words

The planner once more by steps that a machine can take. Products are held against a limit as they are
formed, so where the limit is below the last word none gets past it, and planning comes to the same
end. With a valid configuration that is a plan indeed, and no larger than the limits allow. -/

namespace KeyScan

/-! ### Key ranges -/

/-- The first key past all that start with the given bytes, if there is one. -/
def Key.prefixSuccessor? : Key → Option (Option Key)
  | [] => some none
  | byte :: rest => do
      match ← prefixSuccessor? rest with
      | some next => return some (byte :: next)
      | none => if byte < 255 then return some [← Word.nextByte? byte] else return none

theorem Key.prefixSuccessor?_eq (key : Key) :
    key.prefixSuccessor? = some key.prefixSuccessor := by
  induction key with
  | nil => rfl
  | cons byte rest ih =>
      simp only [prefixSuccessor?, prefixSuccessor, ih, Option.bind_eq_bind, Option.bind_some]
      cases prefixSuccessor rest with
      | some next => rfl
      | none =>
          simp only
          split
          · rename_i hbyte
            rw [Word.nextByte?_eq hbyte]
            rfl
          · rfl

namespace Planning

def usablePrefixes? (conditions : List Condition) (info : TableMeta) (config : PlannerConfig) :
    Option Prefixes :=
  if conditions = [] || info.rowKeyFormat.components = [] then some {}
  else do
    match ← Prefixes.expand? info.rowKeyFormat config.maxPrefixExpansion conditions with
    | .ok prefixes => return prefixes
    | .error _ => return {}

def prefixRange? (complete : Bool) (separator body : Key) : Option KeyRange := do
  let stop ← (body ++ separator).prefixSuccessor?
  return ⟨some (if complete then body else body ++ separator), stop⟩

def prefixRanges? (prefixes : Prefixes) (separator : Key) : Option (List KeyRange) :=
  prefixes.texts.mapM fun text => prefixRange? prefixes.complete separator (Key.ofText text)

/-- Room is made for all ranges before the first. -/
def saltedPrefixRanges? (salt : Salt) (prefixes : Prefixes) (separator : Key) :
    Option (List KeyRange) := do
  let _ ← Word.mul? (← Word.length? prefixes.texts) (← CharRange.totalSize? salt.ranges)
  let ranges ← prefixes.texts.mapM fun text =>
    salt.bytes.mapM fun byte =>
      prefixRange? prefixes.complete separator (byte :: separator ++ Key.ofText text)
  return ranges.flatten

def saltBucketRanges? (salt : Salt) (bounds : KeyBounds) (config : PlannerConfig) :
    Option (Except Error (List KeyRange)) := do
  match ← Buckets.partition? salt.ranges config.saltBucketCount with
  | .error error => return .error error
  | .ok buckets =>
      let kept :=
        if bounds.isUnbounded then buckets
        else
          match bounds.firstByteWindow with
          | some window => Buckets.clip buckets window
          | none => []
      return .ok (kept.map Buckets.keyRange)

def outerRanges? (prefixes : Prefixes) (bounds : KeyBounds) (info : TableMeta)
    (config : PlannerConfig) : Option (Except Error (List KeyRange)) :=
  let separator := Key.ofText info.rowKeyFormat.separator
  match info.salt with
  | none =>
      if prefixes.texts = [] then some (.ok [.unbounded])
      else (prefixRanges? prefixes separator).map .ok
  | some salt => do
      if prefixes.texts = [] then saltBucketRanges? salt bounds config
      else
        let size ← CharRange.totalSize? salt.ranges
        let found ← Word.length? prefixes.texts
        if config.maxSplitCount < Word.saturatingMul size found then
          saltBucketRanges? salt bounds config
        else (saltedPrefixRanges? salt prefixes separator).map .ok

def planKeyRanges? (conditions : List Condition) (info : TableMeta) (config : PlannerConfig) :
    Option (Except Error (List KeyRange)) := do
  let bounds := KeyBounds.ofConditions conditions info
  let ranges ← outerRanges? (← usablePrefixes? conditions info config) bounds info config
  return ranges.map fun ranges => ranges.filterMap fun range => range.intersect bounds.keyRange

variable {conditions : List Condition} {info : TableMeta} {prefixes : Prefixes} {salt : Salt}
  {config : PlannerConfig}

theorem usablePrefixes?_eq (hconditions : conditions.length < UInt64.size)
    (hcomponents : info.rowKeyFormat.components.length < UInt64.size)
    (hfits : PrefixesFit config conditions info) :
    usablePrefixes? conditions info config = some (usablePrefixes conditions info config) := by
  rw [usablePrefixes?, usablePrefixes, Prefixes.expand?_eq hconditions hcomponents hfits]
  split
  · rfl
  · cases Prefixes.expand info.rowKeyFormat config.maxPrefixExpansion conditions <;> rfl

/-- Prefixes to plan with are counted by a word, as no step of their expansion passed the cap. -/
theorem length_usablePrefixes_lt (hfits : PrefixesFit config conditions info) :
    (usablePrefixes conditions info config).texts.length < UInt64.size := by
  rcases hfits with hcap | hproduct
  · exact Word.lt_size_of_lt_last
      (Nat.lt_of_le_of_lt (length_usablePrefixes_le (Or.inl hcap)) hcap)
  · exact Nat.lt_of_le_of_lt (length_usablePrefixes_le_prod conditions info config) hproduct

theorem prefixRange?_eq (complete : Bool) (separator body : Key) :
    prefixRange? complete separator body = some (prefixRange complete separator body) := by
  rw [prefixRange?, Key.prefixSuccessor?_eq, prefixRange]
  cases complete <;> rfl

theorem prefixRanges?_eq (prefixes : Prefixes) (separator : Key) :
    prefixRanges? prefixes separator = some (prefixRanges prefixes separator) :=
  mapM_eq_some fun _ _ => prefixRange?_eq _ _ _

theorem totalSize?_ranges (h : salt.Valid) : CharRange.totalSize? salt.ranges = some salt.size := by
  apply CharRange.totalSize?_eq
  change salt.size < 18446744073709551616
  have hsize := h.size_le
  omega

theorem saltedPrefixRanges?_eq (h : salt.Valid) (hfound : prefixes.texts.length < UInt64.size)
    (hroom : salt.size * prefixes.texts.length < UInt64.size) (separator : Key) :
    saltedPrefixRanges? salt prefixes separator =
      some (saltedPrefixRanges salt prefixes separator) := by
  have hbytes : ∀ text, (salt.bytes.mapM fun byte =>
      prefixRange? prefixes.complete separator (byte :: separator ++ Key.ofText text)) =
        some (salt.bytes.map fun byte =>
          prefixRange prefixes.complete separator (byte :: separator ++ Key.ofText text)) :=
    fun text => mapM_eq_some fun byte _ => prefixRange?_eq _ _ _
  have hranges := mapM_eq_some fun text (_ : text ∈ prefixes.texts) => hbytes text
  rw [Nat.mul_comm] at hroom
  rw [saltedPrefixRanges?, saltedPrefixRanges, totalSize?_ranges h, hranges]
  simp only [Word.length?_eq hfound, Option.bind_eq_bind, Option.bind_some, Word.mul?_eq hroom]
  rfl

theorem saltBucketRanges?_eq (h : salt.Valid) (bounds : KeyBounds) (config : PlannerConfig) :
    saltBucketRanges? salt bounds config = some (saltBucketRanges salt bounds config) := by
  rw [saltBucketRanges?, Buckets.partition?_eq h.size_le, saltBucketRanges]
  cases Buckets.partition salt.ranges config.saltBucketCount <;> rfl

/-- Ranges of prefixes are only made after their number was held against the limit of splits. -/
theorem outerRanges?_eq (hsalt : ∀ salt ∈ info.salt, salt.Valid)
    (hfound : prefixes.texts.length < UInt64.size)
    (hfits : config.maxSplitCount < Word.last ∨
      ∀ salt ∈ info.salt, salt.size * prefixes.texts.length < UInt64.size) (bounds : KeyBounds) :
    outerRanges? prefixes bounds info config = some (outerRanges prefixes bounds info config) := by
  rw [outerRanges?, outerRanges]
  cases hinfo : info.salt with
  | none =>
      simp only [prefixRanges?_eq]
      split <;> rfl
  | some salt =>
      have hvalid := hsalt salt hinfo
      simp only [totalSize?_ranges hvalid, Word.length?_eq hfound, saltBucketRanges?_eq hvalid,
        Option.bind_eq_bind, Option.bind_some]
      by_cases htexts : prefixes.texts = []
      · simp [htexts]
      · simp only [htexts, decide_false, Bool.false_or, if_false, decide_eq_true_eq]
        split
        · rfl
        · rename_i hfew
          have hroom := (Word.mul_le_and_lt_of_saturatingMul_le (Nat.not_lt.mp hfew)
            (hfits.imp_right fun hall => hall salt hinfo)).2
          rw [saltedPrefixRanges?_eq hvalid hfound hroom]
          rfl

theorem planKeyRanges?_eq (hsalt : ∀ salt ∈ info.salt, salt.Valid)
    (hconditions : conditions.length < UInt64.size)
    (hcomponents : info.rowKeyFormat.components.length < UInt64.size)
    (hprefixes : PrefixesFit config conditions info) (hranges : RangesFit config conditions info) :
    planKeyRanges? conditions info config = some (planKeyRanges conditions info config) := by
  rw [planKeyRanges?, planKeyRanges, usablePrefixes?_eq hconditions hcomponents hprefixes]
  simp only [Option.bind_eq_bind, Option.bind_some]
  rw [outerRanges?_eq hsalt (length_usablePrefixes_lt hprefixes) hranges]
  cases outerRanges (usablePrefixes conditions info config)
    (KeyBounds.ofConditions conditions info) info config <;> rfl

/-! ### Plans -/

def batchUnits? (config : PlannerConfig) (conditions : List Condition) (info : TableMeta) :
    Option (List PlannedUnit) := do
  let residual := conditions.filter fun c => c.column ≠ info.rowKeyColumn
  let found ← chunks? config (wantedKeys conditions info)
  return found.map (batchUnit residual)

def rangeUnits? (config : PlannerConfig) (conditions : List Condition) (info : TableMeta) :
    Option (Except Error (List PlannedUnit)) := do
  let ranges ← planKeyRanges? conditions info config
  return ranges.map fun ranges => ranges.map fun range => (.keyRange range, conditions)

def hostFor? (config : SchedulingConfig) (index : Nat) : Option (Option HostAddress) :=
  match config.workerPort with
  | none => some none
  | some port =>
      if config.workerHosts = [] then some none
      else do
        let turn ← Word.mod? index config.workerHosts.length
        let host ← config.workerHosts[turn]?
        return some ⟨host, port⟩

def splitsOf? (config : Config) (info : TableMeta) (units : List PlannedUnit) :
    Option (List Split) :=
  units.zipIdx.mapM fun (unit, index) => do
    let host ← hostFor? config.scheduling index
    return { splitOf config info unit index with hostHints := host.toList }

/-- The units of a read. Those of regions take no computing. -/
def planUnits? {σ : Type} (config : Config) (source : RegionSource σ) (conditions : List Condition)
    (info : TableMeta) (state : σ) : Option (Except Error (List PlannedUnit) × σ) :=
  match selectStrategy config conditions info with
  | .batchGet => do
      let units ← batchUnits? config.planner conditions info
      return (.ok units, state)
  | .keyRange => do
      let units ← rangeUnits? config.planner conditions info
      return (units, state)
  | .regionLocal => some (planUnits config source conditions info state)

def planWith? {σ : Type} (config : Config) (source : RegionSource σ)
    (shuffle : List Split → List Split) (conditions : List Condition) (info : TableMeta)
    (state : σ) : Option (Except Error (List Split) × σ) :=
  match info.validate with
  | .error error => some (.error error, state)
  | .ok () => do
      match ← planUnits? config source conditions info state with
      | (.error error, state) => return (.error error, state)
      | (.ok units, state) =>
          let splits ← splitsOf? config info units
          return (.ok (shuffle splits), state)

theorem batchUnits?_eq (h : conditions.length < UInt64.size) (config : PlannerConfig)
    (info : TableMeta) :
    batchUnits? config conditions info = some (batchUnits config conditions info) := by
  have hlength : (wantedKeys conditions info).length < UInt64.size := by
    calc (wantedKeys conditions info).length
        ≤ (conditions.filter fun c => c.isEqualityOn info.rowKeyColumn).length := by
          rw [wantedKeys]
          exact Nat.le_trans (eraseDupsBy_sublist _ _).length_le (Nat.le_of_eq (List.length_map _))
      _ ≤ conditions.length := List.length_filter_le _ _
      _ < UInt64.size := h
  rw [batchUnits?, chunks?_eq config hlength]
  rfl

/-- A turn is one of the workers', as there are some. -/
theorem hostFor?_eq (config : SchedulingConfig) (index : Nat) :
    hostFor? config index = some (config.hostFor index) := by
  rw [hostFor?, SchedulingConfig.hostFor]
  cases config.workerPort with
  | none => rfl
  | some port =>
      simp only
      split
      · rename_i hnone
        simp [hnone]
      · rename_i hsome
        have hpos : 0 < config.workerHosts.length := List.length_pos_of_ne_nil hsome
        have hturn := List.getElem?_eq_getElem (Nat.mod_lt index hpos)
        rw [Word.mod?_eq (Nat.ne_of_gt hpos), Option.bind_eq_bind, Option.bind_some, hturn]
        rfl

theorem splitsOf?_eq (config : Config) (info : TableMeta) (units : List PlannedUnit) :
    splitsOf? config info units = some (splitsOf config info units) := by
  apply mapM_eq_some
  rintro ⟨unit, index⟩ _
  simp only [hostFor?_eq]
  rfl

/-- A plan is counted by words: the lists it is made from and, where key ranges are planned with the
last word for a limit, what this limit lets through. -/
structure InWords (config : Config) (conditions : List Condition) (info : TableMeta) : Prop where
  conditions_lt : conditions.length < UInt64.size
  components_lt : info.rowKeyFormat.components.length < UInt64.size
  prefixes_fit : selectStrategy config conditions info = .keyRange →
    PrefixesFit config.planner conditions info
  ranges_fit : selectStrategy config conditions info = .keyRange →
    RangesFit config.planner conditions info

/-- Below the last word the limits take care of all that is planned. -/
theorem inWords_of_lt {config : Config} (hconditions : conditions.length < UInt64.size)
    (hcomponents : info.rowKeyFormat.components.length < UInt64.size)
    (hprefixes : config.planner.maxPrefixExpansion < Word.last)
    (hsplits : config.planner.maxSplitCount < Word.last) : InWords config conditions info :=
  ⟨hconditions, hcomponents, fun _ => Or.inl hprefixes, fun _ => Or.inl hsplits⟩

/-- Planning takes no step that a machine cannot take. -/
theorem planWith?_eq (hsalt : ∀ salt ∈ info.salt, salt.Valid) {config : Config}
    (h : InWords config conditions info) {σ : Type} (source : RegionSource σ)
    (shuffle : List Split → List Split) (state : σ) :
    planWith? config source shuffle conditions info state =
      some (planWith config source shuffle conditions info state) := by
  have hunits : planUnits? config source conditions info state =
      some (planUnits config source conditions info state) := by
    rw [planUnits?]
    cases hstrategy : selectStrategy config conditions info with
    | batchGet =>
        simp only [batchUnits?_eq h.conditions_lt, planUnits, hstrategy]
        rfl
    | keyRange =>
        simp only [rangeUnits?, planKeyRanges?_eq hsalt h.conditions_lt h.components_lt
          (h.prefixes_fit hstrategy) (h.ranges_fit hstrategy), planUnits, hstrategy]
        rfl
    | regionLocal => rfl
  rw [planWith?, planWith, hunits]
  cases info.validate with
  | error error => rfl
  | ok _ =>
      simp only [Option.bind_eq_bind, Option.bind_some]
      rcases planUnits config source conditions info state with ⟨_ | units, state⟩
      · rfl
      · simp only [splitsOf?_eq]
        rfl

/-- Planning never fails and never gets out of hand: a valid configuration without regions plans
every read of a valid table in no more splits than its limits allow, and by steps that a machine can
take. Where a limit of products is the last word itself, a word has to hold the product. -/
theorem planWith_succeeds_within_limits {config : Config} (hconfig : config.fault? = none)
    (hregions : config.regionLocal.enabled = false) (hinfo : info.validate = .ok ())
    (hsalt : ∀ salt ∈ info.salt, salt.Valid) {shuffle : List Split → List Split}
    (hshuffle : ∀ splits, (shuffle splits).Perm splits) (conditions : List Condition) {σ : Type}
    (source : RegionSource σ) (state : σ) :
    ∃ splits,
      planWith config source shuffle conditions info state = (.ok splits, state) ∧
      WithinLimits config conditions info splits.length ∧
      (InWords config conditions info →
        planWith? config source shuffle conditions info state = some (.ok splits, state)) := by
  obtain ⟨units, hunits, hlimit⟩ := exists_planUnits hconfig hregions source conditions info state
  have hplan : planWith config source shuffle conditions info state =
      (.ok (shuffle (splitsOf config info units)), state) := by
    simp only [planWith, hinfo, hunits]
    rfl
  have hlength : (shuffle (splitsOf config info units)).length = units.length := by
    rw [(hshuffle _).length_eq, splitsOf, List.length_map, List.length_zipIdx]
  refine ⟨_, hplan, ?_, fun hwords => by rw [planWith?_eq hsalt hwords, hplan]⟩
  rw [hlength]
  exact hlimit

theorem planWith_succeeds_within_limits_visits :
    ∃ splits,
      planWith { planner := { maxSplitCount := 2 } } noSnapshots List.reverse visitsInTwo visitKeys
        () = (.ok splits, ()) ∧
      planWith? { planner := { maxSplitCount := 2 } } noSnapshots List.reverse visitsInTwo visitKeys
        () = some (.ok splits, ()) ∧
      splits.length ≤ 2 := by
  obtain ⟨splits, hplan, hlength, hwords⟩ :=
    @planWith_succeeds_within_limits visitKeys { planner := { maxSplitCount := 2 } } (by decide) rfl
      (by decide) visitKeys_salt_valid List.reverse (fun _ => List.reverse_perm _) visitsInTwo Unit
      noSnapshots ()
  exact ⟨splits, hplan, hwords (inWords_of_lt (by decide) (by decide) (by decide) (by decide)),
    hlength (Or.inl (by decide))⟩

end Planning

end KeyScan
