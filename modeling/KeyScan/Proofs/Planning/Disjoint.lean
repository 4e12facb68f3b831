import KeyScan.Proofs.Lists
import KeyScan.Proofs.Planning.PrefixRanges

/-! # Overlaps of planned ranges

Planned ranges overlap only where a plan goes by prefixes and the keys of one prefix begin among
those of another: one value goes on from another with the separator or, where prefixes are complete,
sorts between another and its separator. -/

namespace KeyScan

open KeyRange

/-- The first key from `key` on that the lower bound admits. -/
def KeyBounds.raise (bounds : KeyBounds) (key : Key) : Key :=
  match bounds.lower with
  | none => key
  | some lower => Key.larger lower key

theorem KeyBounds.raise_le_iff (bounds : KeyBounds) (first key : Key) :
    bounds.raise first ≤ key ↔ (∀ lower ∈ bounds.lower, lower ≤ key) ∧ first ≤ key := by
  rw [raise]
  cases bounds.lower with
  | none => simp
  | some lower => simp [larger_le_iff]

namespace Planning

/-- The first key in the range of a prefix. -/
def Prefixes.firstKey (prefixes : Prefixes) (separator body : Key) : Key :=
  if prefixes.complete then body else body ++ separator

/-- The second prefix has its first key within the bounds among the keys of the first. -/
def Prefixes.Clash (prefixes : Prefixes) (separator : Key) (bounds : KeyBounds)
    (body other : Key) : Prop :=
  let first := bounds.raise (prefixes.firstKey separator other)
  first ∈ bounds.keyRange ∧ first ∈ prefixRange prefixes.complete separator body ∧
    first ∈ prefixRange prefixes.complete separator other

variable {conditions : List Condition} {info : TableMeta} {config : PlannerConfig}
  {prefixes : Prefixes} {bounds : KeyBounds} {separator body other key : Key}

instance : Decidable (prefixes.Clash separator bounds body other) :=
  inferInstanceAs (Decidable (_ ∧ _ ∧ _))

/-! ### Two prefixes -/

theorem start_prefixRange (prefixes : Prefixes) (separator body : Key) :
    (prefixRange prefixes.complete separator body).start =
      some (prefixes.firstKey separator body) := by
  rw [prefixRange, Prefixes.firstKey]
  split <;> rfl

/-- Of two prefixes that share a key within the bounds, the one whose keys begin later clashes with
the other. -/
theorem clash_of_mem (hbounds : key ∈ bounds.keyRange)
    (hbody : key ∈ prefixRange prefixes.complete separator body)
    (hother : key ∈ prefixRange prefixes.complete separator other)
    (hle : prefixes.firstKey separator body ≤ prefixes.firstKey separator other) :
    prefixes.Clash separator bounds body other := by
  have hfirst : prefixes.firstKey separator other ≤ key :=
    (mem_iff.mp hother).1 _ (start_prefixRange prefixes separator other)
  have hraise : bounds.raise (prefixes.firstKey separator other) ≤ key :=
    (bounds.raise_le_iff _ _).mpr ⟨(mem_iff.mp hbounds).1, hfirst⟩
  obtain ⟨hlower, hother'⟩ := (bounds.raise_le_iff (prefixes.firstKey separator other) _).mp
    (Std.le_refl (bounds.raise (prefixes.firstKey separator other)))
  refine ⟨mem_of_le hbounds hlower hraise, mem_of_le hbody ?_ hraise,
    mem_of_le hother ?_ hraise⟩
  · rw [start_prefixRange]
    rintro start ⟨⟩
    exact Std.le_trans hle hother'
  · rw [start_prefixRange]
    rintro start ⟨⟩
    exact hother'

/-- Two prefixes share a key within the bounds if one of them clashes with the other. -/
theorem exists_mem_both_iff :
    (∃ key ∈ bounds.keyRange, key ∈ prefixRange prefixes.complete separator body ∧
        key ∈ prefixRange prefixes.complete separator other) ↔
      prefixes.Clash separator bounds body other ∨
        prefixes.Clash separator bounds other body := by
  constructor
  · rintro ⟨key, hbounds, hbody, hother⟩
    have htotal : prefixes.firstKey separator body ≤ prefixes.firstKey separator other ∨
        prefixes.firstKey separator other ≤ prefixes.firstKey separator body := Std.le_total
    rcases htotal with hle | hle
    · exact Or.inl (clash_of_mem hbounds hbody hother hle)
    · exact Or.inr (clash_of_mem hbounds hother hbody hle)
  · rintro (⟨hbounds, hbody, hother⟩ | ⟨hbounds, hother, hbody⟩)
    · exact ⟨_, hbounds, hbody, hother⟩
    · exact ⟨_, hbounds, hbody, hother⟩

/-! ### All prefixes -/

theorem nodup_leads (hsalt : ∀ salt ∈ info.salt, salt.Valid) : info.leads.Nodup := by
  rw [TableMeta.leads]
  cases hinfo : info.salt with
  | none => exact List.nodup_singleton _
  | some salt => exact (hsalt salt hinfo).nodup_bytes.map fun a b hab => (List.cons.inj hab).1

theorem saltCount_le_one (hsalt : ∀ salt ∈ info.salt, salt.Valid) (key : Key) :
    info.saltCount key ≤ 1 := by
  rw [TableMeta.saltCount_eq fun salt hinfo => (hsalt salt hinfo).pairwise_apart]
  split <;> omega

/-- A key lies in one range at most if no two prefixes after one lead both hold it. -/
theorem coverCount_leadRange_le_one_iff (hsalt : ∀ salt ∈ info.salt, salt.Valid)
    (htexts : prefixes.texts.Nodup) (key : Key) :
    coverCount ((prefixes.texts ×ˢ info.leads).map fun pair =>
        leadRange prefixes info pair.2 pair.1) key ≤ 1 ↔
      ∀ lead ∈ info.leads, ∀ p ∈ prefixes.texts, ∀ q ∈ prefixes.texts,
        key ∈ leadRange prefixes info lead p → key ∈ leadRange prefixes info lead q → p = q := by
  have hnodup := htexts.product (nodup_leads hsalt)
  rw [coverCount, List.countP_map, countP_le_one_iff_of_nodup hnodup]
  constructor
  · intro hunique lead hlead p hp q hq hkeyP hkeyQ
    have heq := hunique (p, lead) (List.mem_product.mpr ⟨hp, hlead⟩) (q, lead)
      (List.mem_product.mpr ⟨hq, hlead⟩) (by simpa using hkeyP) (by simpa using hkeyQ)
    exact congrArg Prod.fst heq
  · rintro hunique ⟨p, lead⟩ hpair ⟨q, other⟩ hpair' hkeyP hkeyQ
    obtain ⟨hp, hlead⟩ := List.mem_product.mp hpair
    obtain ⟨hq, hother⟩ := List.mem_product.mp hpair'
    simp only [Function.comp_apply, decide_eq_true_eq] at hkeyP hkeyQ
    obtain rfl := TableMeta.lead_unique hlead hother (prefix_of_mem_prefixRange hkeyP)
      (prefix_of_mem_prefixRange hkeyQ)
    rw [hunique lead hlead p hp q hq hkeyP hkeyQ]

/-- No key lies in two planned ranges, if the plan does not go by prefixes. If it does, the same
holds exactly if no two prefixes clash after one lead. -/
theorem planKeyRanges_disjoint_iff (hsalt : ∀ salt ∈ info.salt, salt.Valid)
    {ranges : List KeyRange} (h : planKeyRanges conditions info config = .ok ranges) :
    (∀ key, coverCount ranges key ≤ 1) ↔
      (UsesPrefixes (usablePrefixes conditions info config) info config →
        ∀ lead ∈ info.leads, ∀ p ∈ (usablePrefixes conditions info config).texts,
          ∀ q ∈ (usablePrefixes conditions info config).texts, p ≠ q →
            ¬ (usablePrefixes conditions info config).Clash
              (Key.ofText info.rowKeyFormat.separator) (KeyBounds.ofConditions conditions info)
              (lead ++ Key.ofText p) (lead ++ Key.ofText q)) := by
  obtain ⟨outer, houter, rfl⟩ := exists_outer_of_planKeyRanges h
  have hnarrow : (∀ key, coverCount (outer.filterMap fun range =>
      range.intersect (KeyBounds.ofConditions conditions info).keyRange) key ≤ 1) ↔
        ∀ key ∈ (KeyBounds.ofConditions conditions info).keyRange, coverCount outer key ≤ 1 := by
    apply forall_congr'
    intro key
    rw [coverCount_narrow]
    split <;> simp_all
  rw [hnarrow]
  by_cases huses : UsesPrefixes (usablePrefixes conditions info config) info config
  · rw [outerRanges_of_usesPrefixes huses] at houter
    obtain rfl := Except.ok.inj houter
    simp only [coverCount_leadRange_le_one_iff hsalt (nodup_texts_usablePrefixes ..), huses,
      true_implies]
    constructor
    · intro hunique lead hlead p hp q hq hne hclash
      obtain ⟨key, hkey, hkeyP, hkeyQ⟩ := exists_mem_both_iff.mpr (Or.inl hclash)
      exact hne (hunique key hkey lead hlead p hp q hq hkeyP hkeyQ)
    · intro hclash key hkey lead hlead p hp q hq hkeyP hkeyQ
      by_contra hne
      rcases exists_mem_both_iff.mp ⟨key, hkey, hkeyP, hkeyQ⟩ with hpq | hqp
      · exact hclash lead hlead p hp q hq hne hpq
      · exact hclash lead hlead q hq p hp (Ne.symm hne) hqp
  · have hcover : ∀ key ∈ (KeyBounds.ofConditions conditions info).keyRange,
        coverCount outer key ≤ 1 := by
      intro key hkey
      rw [(coverCount_outerRanges huses houter hkey).2 fun salt hinfo => (hsalt salt hinfo).ordered]
      exact saltCount_le_one hsalt key
    simpa [huses] using hcover

/-- Visits of one user in two countries: the prefixes are whole keys. -/
def visitsInTwo : List Condition :=
  [.equals "country" (.varchar "cz"), .equals "country" (.varchar "de"),
    .equals "user" (.varchar "7")]

theorem planKeyRanges_disjoint_visits :
    (∀ salt ∈ visitKeys.salt, salt.Valid) ∧
      ∃ ranges, planKeyRanges visitsInTwo visitKeys {} = .ok ranges ∧
        ∀ key, coverCount ranges key ≤ 1 := by
  have hplan : planKeyRanges visitsInTwo visitKeys {} = .ok _ := rfl
  refine ⟨visitKeys_salt_valid, _, hplan, ?_⟩
  refine (planKeyRanges_disjoint_iff visitKeys_salt_valid hplan).mpr fun _ => ?_
  decide

/-- Values that hold the separator overlap; so do whole keys of which one goes on from another with
a byte below the separator. -/
theorem planKeyRanges_not_disjoint :
    visitKeys.validate = .ok () ∧
    (∃ ranges, planKeyRanges
        [.equals "country" (.varchar "cz"), .equals "country" (.varchar "cz-a")] visitKeys {} =
          .ok ranges ∧
      coverCount ranges (Key.ofText "b-cz-a-7") = 2) ∧
    (∃ ranges, planKeyRanges
        [.equals "country" (.varchar "cz"), .equals "user" (.varchar "7"),
          .equals "user" (.varchar "7!")] visitKeys {} = .ok ranges ∧
      coverCount ranges (Key.ofText "b-cz-7!") = 2) := by
  refine ⟨by decide, ⟨_, rfl, ?_⟩, ⟨_, rfl, ?_⟩⟩ <;> decide

end Planning

end KeyScan
