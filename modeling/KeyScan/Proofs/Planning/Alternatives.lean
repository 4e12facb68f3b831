import KeyScan.Proofs.Constraint.Texts
import KeyScan.Proofs.Planning.PrefixRanges

/-! # Prefixes and components with alternatives

The conditions on a component are alternatives, but prefixes are made from its equalities alone. A
key whose part takes an inequality instead is covered if no prefixes are used, and else only if it
happens to run into the range of one. -/

namespace KeyScan

open KeyRange

variable {constraint : Constraint} {component : String} {part : Key}

namespace Planning

/-! ### Parts that equalities name -/

/-- The column has an inequality, so its equalities are not all that is allowed. -/
def HasInequality (conditions : List Condition) (column : String) : Prop :=
  ∃ c ∈ conditionsOn column conditions, c.operator ≠ .eq

/-- Without inequalities on a component that has texts, an equality names each part that its domain
admits. -/
theorem namesText_of_admitsText (hordered : constraint.Ordered) {texts : List String}
    (htexts : equalityTexts constraint.conditions component = some texts)
    (hpart : constraint.AdmitsText component part)
    (hequality : ¬ HasInequality constraint.conditions component) :
    NamesText constraint.conditions component part := by
  obtain ⟨⟨c, hc, hnamed⟩, hsome⟩ := (equalityTexts_eq_some_iff.mp htexts).1
  cases constraint with
  | unavailable => simp [Constraint.conditions] at hc
  | columns domains =>
      obtain ⟨⟨column, domain⟩, hentry, hdomain⟩ := List.mem_flatMap.mp hc
      obtain rfl : column = component := by
        have hcolumn := Constraint.column_of_mem_conditions hdomain
        simp only [Condition.isEqualityOn, Bool.and_eq_true, decide_eq_true_eq] at hnamed
        exact hcolumn.symm.trans hnamed.2
      have hmem : ∀ c ∈ domain.conditions column, c ∈ (Constraint.columns domains).conditions :=
        fun c hc => List.mem_flatMap.mpr ⟨_, hentry, hc⟩
      rcases Domain.exists_equality_or_inequality (hordered.2 _ hentry)
          (List.ne_nil_of_mem hdomain) (hpart _ hentry rfl) with
        ⟨value, hvalue, hconverted⟩ | ⟨other, hother, hoperator⟩
      · have hnamed : (⟨column, .eq, value, domain.columnType⟩ : Condition).isEqualityOn column =
            true := by simp [Condition.isEqualityOn]
        obtain ⟨converted, heq⟩ := Option.isSome_iff_exists.mp (hsome _ (hmem _ hvalue) hnamed)
        exact ⟨_, hmem _ hvalue, hnamed, converted, heq, hconverted converted heq⟩
      · refine absurd ⟨other, ?_, hoperator⟩ hequality
        exact mem_conditionsOn_iff.mpr
          ⟨hmem other hother, Constraint.column_of_mem_conditions hother⟩

/-! ### Coverage -/

variable {info : TableMeta} {conditions : List Condition}

theorem depth_usablePrefixes {config : PlannerConfig}
    (h : (usablePrefixes conditions info config).texts ≠ []) :
    (usablePrefixes conditions info config).depth =
      (leadingTexts conditions info.rowKeyFormat.components).length := by
  rw [usablePrefixes_eq] at h ⊢
  simp only at h ⊢
  split at h
  · simp at h
  · rename_i hused
    rw [if_neg hused]

/-- The parts run into the range of a prefix. -/
def Prefixes.Reach (prefixes : Prefixes) (separator : Key) (parts : List Key) : Prop :=
  ∃ text ∈ prefixes.texts,
    List.intercalate separator parts ∈ prefixRange prefixes.complete separator (Key.ofText text)

/-- Of the first components, those that have inequalities still have their parts named by
equalities. -/
def NamesLeading (conditions : List Condition) (depth : Nat) (components : List String)
    (parts : List Key) : Prop :=
  ∀ pair ∈ (components.zip parts).take depth,
    HasInequality conditions pair.1 → NamesText conditions pair.1 pair.2

/-- A key with admitted parts begins with a prefix, if the leading parts of components that have
inequalities are named by equalities all the same. -/
theorem usablePrefixes_begin_of_named (hordered : constraint.Ordered) {config : PlannerConfig}
    {parts : List Key}
    (hparts : List.Forall₂ constraint.AdmitsText info.rowKeyFormat.components parts)
    (hnamed : NamesLeading constraint.conditions
      (usablePrefixes constraint.conditions info config).depth info.rowKeyFormat.components parts) :
    (usablePrefixes constraint.conditions info config).texts = [] ∨
      (usablePrefixes constraint.conditions info config).Begin
        (Key.ofText info.rowKeyFormat.separator) parts := by
  by_cases htexts : (usablePrefixes constraint.conditions info config).texts = []
  · exact Or.inl htexts
  · rw [depth_usablePrefixes htexts] at hnamed
    have hleading : ∀ pair ∈ (info.rowKeyFormat.components.zip parts).take
        (leadingTexts constraint.conditions info.rowKeyFormat.components).length,
          ∀ texts, equalityTexts constraint.conditions pair.1 = some texts →
            ∃ text ∈ texts, pair.2 = Key.ofText text := by
      intro pair hpair texts hsome
      have hadmits : constraint.AdmitsText pair.1 pair.2 :=
        (List.forall₂_iff_zip.mp hparts).2 (List.mem_of_mem_take hpair)
      have hnames : NamesText constraint.conditions pair.1 pair.2 := by
        by_cases hinequality : HasInequality constraint.conditions pair.1
        · exact hnamed pair hpair hinequality
        · exact namesText_of_admitsText hordered hsome hadmits hinequality
      exact exists_mem_of_namesText hnames hsome
    obtain ⟨choice, rest, rfl, hchoice, hlength⟩ :=
      exists_choice_of_leading hparts.length_eq hleading
    exact usablePrefixes_begin_of_choice config hchoice hlength

/-- When a key is covered whose parts the constraint admits: always, if the plan does not go by
prefixes; if it does, exactly when the parts run into the range of a prefix. They do so where the
leading parts of components with inequalities are named by equalities. -/
theorem planKeyRanges_covers_alternatives_iff {config : Config} (hconfig : config.fault? = none)
    (hordered : constraint.Ordered) {parts : List Key} {key : Key}
    (hparts : List.Forall₂ constraint.AdmitsText info.rowKeyFormat.components parts)
    (hkey : info.Composes parts key) (hrow : constraint.AdmitsText info.rowKeyColumn key) :
    ∃ ranges, planKeyRanges constraint.conditions info config.planner = .ok ranges ∧
      ((∃ range ∈ ranges, key ∈ range) ↔
        (UsesPrefixes (usablePrefixes constraint.conditions info config.planner) info
            config.planner →
          (usablePrefixes constraint.conditions info config.planner).Reach
            (Key.ofText info.rowKeyFormat.separator) parts)) ∧
      (NamesLeading constraint.conditions
          (usablePrefixes constraint.conditions info config.planner).depth
          info.rowKeyFormat.components parts →
        ∃ range ∈ ranges, key ∈ range) := by
  obtain ⟨prefixes, hprefixes⟩ :
      ∃ prefixes, prefixes = usablePrefixes constraint.conditions info config.planner := ⟨_, rfl⟩
  obtain ⟨outer, houter⟩ := exists_outerRanges_eq_ok (Config.saltBucketCount_ne_zero hconfig)
    prefixes info (KeyBounds.ofConditions constraint.conditions info)
  obtain ⟨lead, hlead, rfl⟩ := hkey.exists_lead
  have hbounds := KeyBounds.mem_keyRange_of_admitsText hordered hrow
  have hcovered : 0 < coverCount outer (lead ++
      List.intercalate (Key.ofText info.rowKeyFormat.separator) parts) ↔
        (UsesPrefixes prefixes info config.planner →
          prefixes.Reach (Key.ofText info.rowKeyFormat.separator) parts) := by
    by_cases huses : UsesPrefixes prefixes info config.planner
    · rw [outerRanges_of_usesPrefixes huses] at houter
      obtain rfl := Except.ok.inj houter
      rw [coverCount_pos_iff, exists_mem_leadRange_iff hlead]
      simp [huses, Prefixes.Reach]
    · have hpos := Nat.lt_of_lt_of_le (TableMeta.saltCount_append_pos hlead _)
        (coverCount_outerRanges huses houter hbounds).1
      simp [huses, hpos]
  refine ⟨_, by rw [planKeyRanges, ← hprefixes, houter]; rfl, ?_⟩
  rw [← coverCount_pos_iff, coverCount_narrow, if_pos hbounds, ← hprefixes]
  refine ⟨hcovered, fun hnamed => hcovered.mpr fun huses => ?_⟩
  rw [hprefixes] at hnamed huses ⊢
  obtain ⟨text, htext, rest, heq, hcomplete⟩ :=
    (usablePrefixes_begin_of_named hordered hparts hnamed).resolve_left huses.1
  exact ⟨text, htext, heq ▸ mem_prefixRange hcomplete _ _⟩

/-- Visits of one country by name, and of all countries from another on. -/
def visitsByCountry : Constraint :=
  .columns ⟨[("country",
    ⟨.varchar, .ranges [.single (.varchar "cz"), .atLeast (.varchar "x")]⟩)]⟩

theorem visitsByCountry_ordered : visitsByCountry.Ordered :=
  ⟨List.pairwise_singleton _ _, by
    simp [Domain.Ascending, ValueRange.Ascending, ValueRange.single, ValueRange.atLeast]⟩

theorem planKeyRanges_covers_alternatives_cz :
    ∃ ranges, planKeyRanges visitsByCountry.conditions visitKeys ({} : Config).planner =
        .ok ranges ∧
      ∃ range ∈ ranges, Key.ofText "b-cz-7" ∈ range := by
  have hcountry : visitsByCountry.AdmitsText "country" (Key.ofText "cz") := by
    rintro entry hentry -
    obtain rfl := List.mem_singleton.mp hentry
    refine ⟨.single (.varchar "cz"), by simp, ?_⟩
    rintro converted ⟨⟩
    rfl
  have huser : visitsByCountry.AdmitsText "user" (Key.ofText "7") := by
    simp [visitsByCountry, Constraint.AdmitsText]
  have hrow : visitsByCountry.AdmitsText "visit" (Key.ofText "b-cz-7") := by
    simp [visitsByCountry, Constraint.AdmitsText]
  have hkey : visitKeys.Composes [Key.ofText "cz", Key.ofText "7"] (Key.ofText "b-cz-7") :=
    @TableMeta.Composes.salted _ _ _ 98 rfl (by decide)
  obtain ⟨ranges, hranges, _, hcovers⟩ :=
    planKeyRanges_covers_alternatives_iff (by decide : ({} : Config).fault? = none)
      visitsByCountry_ordered (.cons hcountry (.cons huser .nil)) hkey hrow
  refine ⟨ranges, hranges, hcovers fun pair hpair _ => ?_⟩
  obtain rfl : pair = ("country", Key.ofText "cz") := List.mem_singleton.mp hpair
  exact ⟨.equals "country" (.varchar "cz"), by decide, rfl, .varchar "cz", rfl, rfl⟩

/-- The plan has ranges for the named country alone, so keys of the other admitted ones are lost. -/
theorem planKeyRanges_not_covers_alternatives :
    visitsByCountry.Ordered ∧
      List.Forall₂ visitsByCountry.AdmitsText visitKeys.rowKeyFormat.components
        [Key.ofText "zw", Key.ofText "7"] ∧
      visitsByCountry.AdmitsText visitKeys.rowKeyColumn (Key.ofText "b-zw-7") ∧
      visitKeys.Composes [Key.ofText "zw", Key.ofText "7"] (Key.ofText "b-zw-7") ∧
      visitKeys.validate = .ok () ∧ ({} : Config).fault? = none ∧
      ∃ ranges, planKeyRanges visitsByCountry.conditions visitKeys ({} : Config).planner =
          .ok ranges ∧
        ∀ range ∈ ranges, Key.ofText "b-zw-7" ∉ range := by
  have hcountry : visitsByCountry.AdmitsText "country" (Key.ofText "zw") := by
    rintro entry hentry -
    obtain rfl := List.mem_singleton.mp hentry
    refine ⟨.atLeast (.varchar "x"), by simp, ?_⟩
    exact ⟨(by decide : Key.ofText "x" ≤ Key.ofText "zw"), trivial⟩
  have huser : visitsByCountry.AdmitsText "user" (Key.ofText "7") := by
    simp [visitsByCountry, Constraint.AdmitsText]
  have hrow : visitsByCountry.AdmitsText "visit" (Key.ofText "b-zw-7") := by
    simp [visitsByCountry, Constraint.AdmitsText]
  have hkey : visitKeys.Composes [Key.ofText "zw", Key.ofText "7"] (Key.ofText "b-zw-7") :=
    @TableMeta.Composes.salted _ _ _ 98 rfl (by decide)
  refine ⟨visitsByCountry_ordered, .cons hcountry (.cons huser .nil), hrow, hkey, by decide,
    by decide, _, rfl, ?_⟩
  decide

end Planning

end KeyScan
