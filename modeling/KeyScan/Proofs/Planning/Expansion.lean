import KeyScan.Planning.KeyRanges
import KeyScan.Proofs.Lists
import Mathlib.Algebra.Order.BigOperators.Group.List
import Mathlib.Data.List.Forall2
import Mathlib.Data.List.TakeWhile

/-! # Prefixes as a product of texts

Prefixes grow by one component after the other, and each step is held against the cap. No component
that is combined is without texts, so all steps keep to the cap exactly if the whole product does. A
product past the last machine word counts as the last, so only a cap below it can be passed by one. -/

namespace KeyScan.Planning

/-! ### One element from each list -/

/-- Every list with one element from each of the given lists, in the lexicographic order of the places
that the elements come from. -/
def choices {α : Type} : List (List α) → List (List α)
  | [] => [[]]
  | xs :: rest => xs.flatMap fun x => (choices rest).map fun choice => x :: choice

theorem mem_choices_iff {α : Type} {lists : List (List α)} {choice : List α} :
    choice ∈ choices lists ↔ List.Forall₂ (· ∈ ·) choice lists := by
  induction lists generalizing choice with
  | nil => simp [choices]
  | cons xs rest ih =>
      simp only [choices, List.mem_flatMap, List.mem_map, ih, List.forall₂_cons_right_iff]
      constructor
      · rintro ⟨x, hx, others, hothers, rfl⟩
        exact ⟨x, others, hx, hothers, rfl⟩
      · rintro ⟨x, others, hx, hothers, rfl⟩
        exact ⟨x, hx, others, hothers, rfl⟩

theorem length_choices {α : Type} (lists : List (List α)) :
    (choices lists).length = (lists.map List.length).prod := by
  induction lists with
  | nil => rfl
  | cons xs rest ih => simp [choices, List.length_flatMap, ih]

/-! ### Combining the texts of components -/

/-- The choices of texts, each joined by the separator. Without components there are none. -/
def joined (separator : String) (columns : List (List String)) : List String :=
  if columns = [] then [] else (choices columns).map (String.intercalate separator)

theorem length_extend (separator : String) (prefixes texts : List String) :
    (extend separator prefixes texts).length = prefixes.length * texts.length := by
  simp [extend, List.length_flatMap]

theorem prod_length_pos {columns : List (List String)} (h : ∀ column ∈ columns, column ≠ []) :
    0 < (columns.map List.length).prod := by
  rw [List.prod_pos_iff_forall_pos_nat]
  simpa [List.length_pos_iff] using h

/-- The columns have more texts to combine than the cap allows: the first of them alone, or their
product, which counts as the last machine word where it lies past it. -/
def PastCap (cap : Nat) : List (List String) → Prop
  | [] => False
  | first :: rest =>
      cap < first.length ∨ cap < Word.saturatingMul first.length (rest.map List.length).prod

instance (cap : Nat) : (columns : List (List String)) → Decidable (PastCap cap columns)
  | [] => inferInstanceAs (Decidable False)
  | _ :: _ => inferInstanceAs (Decidable (_ ∨ _))

@[simp] theorem not_pastCap_nil (cap : Nat) : ¬ PastCap cap [] :=
  id

/-- A cap below the last word is held against the product itself. -/
theorem pastCap_iff {cap : Nat} {columns : List (List String)}
    (hne : ∀ column ∈ columns, column ≠ []) (hcap : cap < Word.last) :
    PastCap cap columns ↔ columns ≠ [] ∧ cap < (columns.map List.length).prod := by
  cases columns with
  | nil => simp
  | cons first rest =>
      have hpos := prod_length_pos (List.forall_mem_cons.mp hne).2
      have hle : first.length ≤ first.length * (rest.map List.length).prod :=
        Nat.le_mul_of_pos_right _ hpos
      rw [PastCap, Word.lt_saturatingMul_iff, List.map_cons, List.prod_cons]
      simp only [ne_eq, List.cons_ne_nil, not_false_eq_true, true_and]
      omega

/-- Longer columns are past the cap if shorter ones are. -/
theorem PastCap.mono {cap : Nat} {columns longer : List (List String)}
    (hlonger : List.Forall₂ (fun column more => column.length ≤ more.length) columns longer)
    (h : PastCap cap columns) : PastCap cap longer := by
  cases hlonger with
  | nil => exact h
  | cons hfirst hrest =>
      refine h.imp (fun hlt => Nat.lt_of_lt_of_le hlt hfirst) fun hlt => ?_
      refine Nat.lt_of_lt_of_le hlt (Word.saturatingMul_le_saturatingMul hfirst ?_)
      exact (List.forall₂_map_left_iff.mpr (List.forall₂_map_right_iff.mpr hrest)).prod_le_prod'

/-- Later steps only multiply, so where a step is past the cap the whole product is, too. -/
theorem extendAll_eq {cap : Nat} {separator : String} {starts : List String}
    {columns : List (List String)} (hne : ∀ column ∈ columns, column ≠ [])
    (hstarts : min starts.length Word.last ≤ cap) :
    extendAll cap separator starts columns =
      if cap < Word.saturatingMul starts.length (columns.map List.length).prod then .error ⟨cap⟩
      else .ok (starts.flatMap fun start =>
        (choices columns).map fun choice => String.intercalate separator (start :: choice)) := by
  induction columns generalizing starts with
  | nil =>
      have hkept : (starts.flatMap fun start =>
          (choices []).map fun choice => String.intercalate separator (start :: choice)) =
            starts := List.flatMap_singleton' starts
      rw [hkept, extendAll, if_neg]
      rw [List.map_nil, List.prod_nil, Word.saturatingMul, Nat.mul_one]
      exact Nat.not_lt.mpr hstarts
  | cons column rest ih =>
      have hrest := (List.forall_mem_cons.mp hne).2
      have hpos := prod_length_pos hrest
      have hproduct : starts.length * column.length ≤
          starts.length * (column.length * (rest.map List.length).prod) :=
        Nat.mul_le_mul_left _ (Nat.le_mul_of_pos_right _ hpos)
      rw [extendAll, List.map_cons, List.prod_cons]
      split
      · rename_i hover
        rw [Word.lt_saturatingMul_iff] at hover
        rw [if_pos (Word.lt_saturatingMul_iff.mpr ⟨Nat.lt_of_lt_of_le hover.1 hproduct, hover.2⟩)]
      · rename_i hwithin
        have hnext : min (extend separator starts column).length Word.last ≤ cap := by
          rw [length_extend]
          exact Nat.not_lt.mp hwithin
        rw [ih hrest hnext, length_extend]
        simp only [Word.saturatingMul, Nat.mul_assoc]
        congr 2
        simp only [extend, choices, List.flatMap_assoc, List.flatMap_map, List.map_flatMap,
          List.map_map]
        rfl

theorem combine_eq {columns : List (List String)} (hne : ∀ column ∈ columns, column ≠ [])
    (cap : Nat) (separator : String) :
    combine cap separator columns =
      if PastCap cap columns then .error ⟨cap⟩ else .ok (joined separator columns) := by
  cases columns with
  | nil => rfl
  | cons column rest =>
      rw [combine]
      split
      · rename_i hover
        exact (if_pos (Or.inl hover)).symm
      · rename_i hwithin
        have hpast : PastCap cap (column :: rest) ↔
            cap < Word.saturatingMul column.length (rest.map List.length).prod :=
          or_iff_right hwithin
        rw [extendAll_eq (List.forall_mem_cons.mp hne).2 (by omega)]
        simp [hpast, joined, choices, List.map_flatMap, Function.comp_def]

/-! ### The texts of a component -/

/-- The column has an equality, and the values of all its equalities are of the declared type. -/
def Determined (conditions : List Condition) (column : String) : Prop :=
  (∃ c ∈ conditions, c.isEqualityOn column = true) ∧
    ∀ c ∈ conditions, c.isEqualityOn column = true → (c.value.convert? c.valueType).isSome

instance (conditions : List Condition) (column : String) :
    Decidable (Determined conditions column) :=
  inferInstanceAs (Decidable (_ ∧ _))

/-- The distinct texts of the values that equalities on the column ask for, in the order of the
conditions. -/
def namedTexts (conditions : List Condition) (column : String) : List String :=
  ((conditions.filter fun c => c.isEqualityOn column).filterMap fun c =>
    (c.value.convert? c.valueType).map Scalar.text).eraseDups

variable {conditions : List Condition} {column : String} {info : TableMeta}
  {config : PlannerConfig}

theorem mem_namedTexts_iff {text : String} :
    text ∈ namedTexts conditions column ↔
      ∃ c ∈ conditions, c.isEqualityOn column = true ∧
        ∃ value, c.value.convert? c.valueType = some value ∧ value.text = text := by
  simp only [namedTexts, List.mem_eraseDups, List.mem_filterMap, List.mem_filter, and_assoc,
    Option.map_eq_some_iff]

theorem nodup_namedTexts (conditions : List Condition) (column : String) :
    (namedTexts conditions column).Nodup :=
  nodup_eraseDups _

theorem length_namedTexts_le (conditions : List Condition) (column : String) :
    (namedTexts conditions column).length ≤ conditions.length :=
  Nat.le_trans (eraseDupsBy_sublist _ _).length_le
    (Nat.le_trans (List.length_filterMap_le _ _) (List.length_filter_le _ _))

theorem namedTexts_ne_nil (h : Determined conditions column) :
    namedTexts conditions column ≠ [] := by
  obtain ⟨⟨c, hc, hequality⟩, hall⟩ := h
  obtain ⟨value, hvalue⟩ := Option.isSome_iff_exists.mp (hall c hc hequality)
  exact List.ne_nil_of_mem (mem_namedTexts_iff.mpr ⟨c, hc, hequality, value, hvalue, rfl⟩)

/-- A column has texts if equalities determine it, and these are the texts that they name. -/
theorem equalityTexts_eq (conditions : List Condition) (column : String) :
    equalityTexts conditions column =
      if Determined conditions column then some (namedTexts conditions column) else none := by
  by_cases hdetermined : Determined conditions column
  · have hall : ∀ c ∈ conditions.filter fun c => c.isEqualityOn column,
        (c.value.convert? c.valueType).isSome = true := by
      intro c hc
      exact hdetermined.2 c (List.mem_filter.mp hc).1 (List.mem_filter.mp hc).2
    have hne := namedTexts_ne_nil hdetermined
    rw [if_pos hdetermined, equalityTexts, mapM_eq_some_filterMap hall]
    rw [namedTexts, ← List.map_filterMap] at hne ⊢
    cases hvalues : (conditions.filter fun c => c.isEqualityOn column).filterMap fun c =>
        c.value.convert? c.valueType with
    | nil => simp [hvalues] at hne
    | cons value values => rfl
  · rw [if_neg hdetermined, equalityTexts]
    split
    · rename_i value values hvalues
      obtain ⟨c, hc, _⟩ := mem_of_mapM hvalues List.mem_cons_self
      refine absurd ⟨⟨c, List.mem_filter.mp hc⟩, fun c hc hequality => ?_⟩ hdetermined
      obtain ⟨converted, _, heq⟩ :=
        exists_mem_of_mapM hvalues (List.mem_filter.mpr ⟨hc, hequality⟩)
      simp [heq]
    · rfl

theorem equalityTexts_eq_some_iff {texts : List String} :
    equalityTexts conditions column = some texts ↔
      Determined conditions column ∧ texts = namedTexts conditions column := by
  rw [equalityTexts_eq, Option.ite_none_right_eq_some, Option.some.injEq, eq_comm (a := texts)]

theorem leadingTexts_eq (conditions : List Condition) (components : List String) :
    leadingTexts conditions components =
      (components.takeWhile fun component => Determined conditions component).map
        (namedTexts conditions) := by
  induction components with
  | nil => rfl
  | cons component rest ih =>
      rw [leadingTexts, equalityTexts_eq]
      by_cases hdetermined : Determined conditions component
      · simp [hdetermined, ih]
      · simp [hdetermined]

theorem length_leadingTexts_le (conditions : List Condition) (components : List String) :
    (leadingTexts conditions components).length ≤ components.length := by
  rw [leadingTexts_eq, List.length_map]
  exact (List.takeWhile_sublist _).length_le

theorem length_le_of_mem_leadingTexts {components : List String} {texts : List String}
    (h : texts ∈ leadingTexts conditions components) : texts.length ≤ conditions.length := by
  rw [leadingTexts_eq] at h
  obtain ⟨component, _, rfl⟩ := List.mem_map.mp h
  exact length_namedTexts_le conditions component

theorem ne_nil_of_mem_leadingTexts {components : List String} {texts : List String}
    (h : texts ∈ leadingTexts conditions components) : texts ≠ [] := by
  rw [leadingTexts_eq] at h
  obtain ⟨component, hcomponent, rfl⟩ := List.mem_map.mp h
  exact namedTexts_ne_nil (by simpa using List.mem_takeWhile_imp hcomponent)

/-! ### Prefixes -/

theorem expand_eq (format : RowKeyFormat) (cap : Nat) (conditions : List Condition) :
    Prefixes.expand format cap conditions =
      let columns := leadingTexts conditions format.components
      if PastCap cap columns then .error ⟨cap⟩
      else .ok {
        texts := (joined format.separator columns).eraseDups
        depth := columns.length
        complete := 0 < columns.length && columns.length = format.components.length } := by
  simp only [Prefixes.expand, combine_eq fun _ => ne_nil_of_mem_leadingTexts]
  split <;> rfl

/-- Expansion is the product of the texts of the leading components that equalities determine, in the
order of the conditions and without repetitions, unless the product is past the cap. The last word
is no cap. -/
theorem expand_eq_capped_product (format : RowKeyFormat) {cap : Nat} (hcap : cap < Word.last)
    (conditions : List Condition) :
    Prefixes.expand format cap conditions =
      let leading := format.components.takeWhile fun component => Determined conditions component
      let columns := leading.map (namedTexts conditions)
      if leading ≠ [] ∧ cap < (columns.map List.length).prod then .error ⟨cap⟩
      else .ok {
        texts := (joined format.separator columns).eraseDups
        depth := leading.length
        complete := 0 < leading.length ∧ leading.length = format.components.length } := by
  have hpast := pastCap_iff (fun texts (htexts : texts ∈ leadingTexts conditions format.components) =>
    ne_nil_of_mem_leadingTexts htexts) hcap
  rw [leadingTexts_eq] at hpast
  simp only [expand_eq, leadingTexts_eq, hpast]
  simp

/-- Texts that hold the separator may give one prefix twice, which counts against the cap. -/
theorem expand_eq_capped_product_pages :
    4 < Word.last ∧
      Prefixes.expand ⟨["page", "user"], "-"⟩ 4
          [.equals "page" (.varchar "x-y"), .equals "user" (.varchar "z"),
            .equals "page" (.varchar "x"), .equals "user" (.varchar "y-z")] =
        .ok { texts := ["x-y-z", "x-y-y-z", "x-z"], depth := 2, complete := true } :=
  ⟨by decide, (expand_eq_capped_product _ (by decide) _).trans (by decide)⟩

/-- Overflowing prefixes are as good as none. -/
theorem usablePrefixes_eq (conditions : List Condition) (info : TableMeta)
    (config : PlannerConfig) :
    usablePrefixes conditions info config =
      let columns := leadingTexts conditions info.rowKeyFormat.components
      if columns = [] ∨ PastCap config.maxPrefixExpansion columns then {}
      else {
        texts := (joined info.rowKeyFormat.separator columns).eraseDups
        depth := columns.length
        complete := columns.length = info.rowKeyFormat.components.length } := by
  by_cases hcolumns : leadingTexts conditions info.rowKeyFormat.components = []
  · rw [usablePrefixes, expand_eq]
    simp [hcolumns, joined]
  · have hconditions : conditions ≠ [] := by
      rintro rfl
      simp [leadingTexts_eq, Determined] at hcolumns
    have hcomponents : info.rowKeyFormat.components ≠ [] := by
      intro hnil
      simp [hnil, leadingTexts] at hcolumns
    rw [usablePrefixes, expand_eq]
    by_cases hcap : PastCap config.maxPrefixExpansion
        (leadingTexts conditions info.rowKeyFormat.components)
    · simp [hconditions, hcomponents, hcolumns, hcap]
    · simp [hconditions, hcomponents, hcolumns, hcap, List.length_pos_iff]

theorem joined_ne_nil {separator : String} {columns : List (List String)} (hne : columns ≠ [])
    (h : ∀ column ∈ columns, column ≠ []) : joined separator columns ≠ [] := by
  have hpos : 0 < (choices columns).length := by
    rw [length_choices]
    exact prod_length_pos h
  rw [joined, if_neg hne]
  simpa [List.length_pos_iff] using hpos

/-- There are no prefixes to plan with only if no component has texts or the cap is passed. -/
theorem texts_usablePrefixes_eq_nil_iff :
    (usablePrefixes conditions info config).texts = [] ↔
      leadingTexts conditions info.rowKeyFormat.components = [] ∨
        PastCap config.maxPrefixExpansion
          (leadingTexts conditions info.rowKeyFormat.components) := by
  rw [usablePrefixes_eq]
  simp only
  split
  · simp_all
  · rename_i hused
    refine iff_of_false ?_ hused
    obtain ⟨text, htext⟩ := List.exists_mem_of_ne_nil _
      (joined_ne_nil (not_or.mp hused).1 fun _ => ne_nil_of_mem_leadingTexts)
    exact List.ne_nil_of_mem (List.mem_eraseDups.mpr htext)

theorem nodup_texts_usablePrefixes (conditions : List Condition) (info : TableMeta)
    (config : PlannerConfig) : (usablePrefixes conditions info config).texts.Nodup := by
  rw [usablePrefixes_eq]
  simp only
  split
  · exact List.nodup_nil
  · exact nodup_eraseDups _

end KeyScan.Planning
