import KeyScan.Proofs.Lists
import KeyScan.Proofs.Planning.KeyRanges
import Mathlib.Data.List.Forall2

/-! # Coverage of the prefix ranges

A key is put together from one part for each component of the row-key format. Whichever way a plan
goes about prefixes, its ranges hold the keys whose parts meet the equalities on their components. -/

namespace KeyScan

open KeyRange

theorem Key.ofText_append (a b : String) : Key.ofText (a ++ b) = Key.ofText a ++ Key.ofText b := by
  simp [Key.ofText, String.toByteArray_append]

theorem Key.lt_append_cons (body : Key) (byte : UInt8) (rest : Key) :
    body < body ++ byte :: rest := by
  induction body with
  | nil => simp
  | cons first body ih =>
      rw [List.cons_append, List.cons_lt_cons_iff]
      exact Or.inr ⟨rfl, ih⟩

/-! ### Keys by their parts -/

/-- The part is the text of a value that a condition on the component names, if all values of these
conditions are of the component's type. -/
def MeetsEqualities (conditions : List Condition) (component : String) (part : Key) : Prop :=
  conditionsOn component conditions ≠ [] →
    (∀ c ∈ conditionsOn component conditions, (c.value.convert? c.valueType).isSome) →
      ∃ c ∈ conditionsOn component conditions, ∃ value, c.value.convert? c.valueType = some value ∧
        part = value.key

/-- The key consists of the parts with the separator between them, on a salted table after a salt
byte with a separator of its own. -/
inductive TableMeta.Composes (info : TableMeta) (parts : List Key) : Key → Prop
  | unsalted (h : info.salt = none) :
      Composes info parts (List.intercalate (Key.ofText info.rowKeyFormat.separator) parts)
  | salted {salt : Salt} {byte : UInt8} (h : info.salt = some salt) (hbyte : byte ∈ salt.bytes) :
      Composes info parts (byte :: Key.ofText info.rowKeyFormat.separator ++
        List.intercalate (Key.ofText info.rowKeyFormat.separator) parts)

theorem intercalate_cons (separator part : Key) (parts : List Key) :
    List.intercalate separator (part :: parts) =
      part ++ parts.flatMap fun next => separator ++ next := by
  induction parts generalizing part with
  | nil => simp
  | cons next rest ih =>
      rw [List.intercalate_cons_cons, ih next, List.flatMap_cons]
      simp only [List.append_assoc]

namespace Planning

variable {conditions : List Condition} {info : TableMeta} {config : PlannerConfig}

/-! ### Prefix texts -/

/-- An equality on the column names the text. -/
def NamesText (conditions : List Condition) (column : String) (text : Key) : Prop :=
  ∃ c ∈ conditions, c.isEqualityOn column = true ∧
    ∃ value, c.value.convert? c.valueType = some value ∧ text = value.key

/-- Where a component has texts, a part that an equality names is one of them. -/
theorem exists_mem_of_namesText {component : String} {part : Key} {texts : List String}
    (hpart : NamesText conditions component part)
    (h : equalityTexts conditions component = some texts) :
    ∃ text ∈ texts, part = Key.ofText text := by
  obtain ⟨c, hc, hequality, value, hvalue, rfl⟩ := hpart
  obtain ⟨_, rfl⟩ := equalityTexts_eq_some_iff.mp h
  exact ⟨value.text, mem_namedTexts_iff.mpr ⟨c, hc, hequality, value, hvalue, rfl⟩, rfl⟩

/-- Where the conditions on a component are equalities, a part that meets them is one of their
texts. -/
theorem exists_mem_of_equalityTexts {component : String} {part : Key} {texts : List String}
    (hequality : ∀ c ∈ conditions, c.column = component → c.operator = .eq)
    (hpart : MeetsEqualities conditions component part)
    (h : equalityTexts conditions component = some texts) :
    ∃ text ∈ texts, part = Key.ofText text := by
  obtain ⟨⟨c, hc, hnamed⟩, hsome⟩ := (equalityTexts_eq_some_iff.mp h).1
  have hmem : ∀ c, c ∈ conditionsOn component conditions ↔
      c ∈ conditions ∧ c.isEqualityOn component = true := by
    intro c
    rw [← filter_isEqualityOn hequality, List.mem_filter]
  have hne : conditionsOn component conditions ≠ [] :=
    List.ne_nil_of_mem ((hmem c).mpr ⟨hc, hnamed⟩)
  obtain ⟨c, hc, hconverted⟩ := hpart hne fun c hc =>
    hsome c ((hmem c).mp hc).1 ((hmem c).mp hc).2
  exact exists_mem_of_namesText ⟨c, ((hmem c).mp hc).1, ((hmem c).mp hc).2, hconverted⟩ h

/-- Where each leading part is a text of its component, the leading parts of a key are a choice among
the leading texts. The other parts are left over, if not all components have texts. -/
theorem exists_choice_of_leading {components : List String} {parts : List Key}
    (hlength : components.length = parts.length)
    (h : ∀ pair ∈ (components.zip parts).take (leadingTexts conditions components).length,
      ∀ texts, equalityTexts conditions pair.1 = some texts →
        ∃ text ∈ texts, pair.2 = Key.ofText text) :
    ∃ choice rest, parts = choice.map Key.ofText ++ rest ∧
      List.Forall₂ (· ∈ ·) choice (leadingTexts conditions components) ∧
      ((leadingTexts conditions components).length = components.length ↔ rest = []) := by
  induction components generalizing parts with
  | nil =>
      obtain rfl := List.length_eq_zero_iff.mp hlength.symm
      exact ⟨[], [], rfl, List.Forall₂.nil, by simp [leadingTexts]⟩
  | cons component components ih =>
      cases parts with
      | nil => simp at hlength
      | cons part parts =>
          rw [leadingTexts] at h ⊢
          cases htexts : equalityTexts conditions component with
          -- A component without texts ends the prefix, whatever comes after it.
          | none => exact ⟨[], part :: parts, rfl, List.Forall₂.nil, by simp⟩
          | some texts =>
              simp only [htexts, List.length_cons, List.zip_cons_cons, List.take_succ_cons,
                List.forall_mem_cons] at h
              obtain ⟨text, htext, rfl⟩ := h.1 texts rfl
              obtain ⟨choice, rest, rfl, hchoice, hcount⟩ := ih (by simpa using hlength) h.2
              exact ⟨text :: choice, rest, rfl, List.Forall₂.cons htext hchoice,
                by simpa using hcount⟩

/-- The leading parts of a key that meets all equalities are a choice among the leading texts. -/
theorem exists_choice_of_leadingTexts {components : List String} {parts : List Key}
    (hequality : ∀ component ∈ components, ∀ c ∈ conditions, c.column = component →
      c.operator = .eq)
    (hparts : List.Forall₂ (MeetsEqualities conditions) components parts) :
    ∃ choice rest, parts = choice.map Key.ofText ++ rest ∧
      List.Forall₂ (· ∈ ·) choice (leadingTexts conditions components) ∧
      ((leadingTexts conditions components).length = components.length ↔ rest = []) := by
  apply exists_choice_of_leading hparts.length_eq
  intro pair hpair texts htexts
  have hzip := List.mem_of_mem_take hpair
  exact exists_mem_of_equalityTexts (hequality pair.1 (List.of_mem_zip hzip).1)
    ((List.forall₂_iff_zip.mp hparts).2 hzip) htexts

theorem ofText_intercalate (separator : String) (texts : List String) :
    Key.ofText (String.intercalate separator texts) =
      List.intercalate (Key.ofText separator) (texts.map Key.ofText) := by
  cases texts with
  | nil => rfl
  | cons start rest =>
      induction rest generalizing start with
      | nil => simp
      | cons text rest ih =>
          rw [String.intercalate_cons_cons, Key.ofText_append, Key.ofText_append, ih text]
          simp

/-! ### Prefixes of a key -/

/-- One of the prefixes begins the parts of a key, and with complete prefixes it is all of them. -/
def Prefixes.Begin (prefixes : Prefixes) (separator : Key) (parts : List Key) : Prop :=
  ∃ text ∈ prefixes.texts, ∃ rest : List Key,
    List.intercalate separator parts =
      Key.ofText text ++ (rest.flatMap fun part => separator ++ part) ∧
    (prefixes.complete = true ↔ rest = [])

/-- Where the leading parts are a choice among the leading texts, either there are no prefixes to plan
with, or one of them begins the key. -/
theorem usablePrefixes_begin_of_choice (config : PlannerConfig) {choice : List String}
    {rest : List Key}
    (hchoice : List.Forall₂ (· ∈ ·) choice (leadingTexts conditions info.rowKeyFormat.components))
    (hlength : (leadingTexts conditions info.rowKeyFormat.components).length =
      info.rowKeyFormat.components.length ↔ rest = []) :
    (usablePrefixes conditions info config).texts = [] ∨
      (usablePrefixes conditions info config).Begin (Key.ofText info.rowKeyFormat.separator)
        (choice.map Key.ofText ++ rest) := by
  rw [usablePrefixes_eq]
  simp only
  split
  · exact Or.inl rfl
  · rename_i hused
    have hcolumns := (not_or.mp hused).1
    have hmem : String.intercalate info.rowKeyFormat.separator choice ∈
        joined info.rowKeyFormat.separator
          (leadingTexts conditions info.rowKeyFormat.components) := by
      rw [joined, if_neg hcolumns]
      exact List.mem_map_of_mem (mem_choices_iff.mpr hchoice)
    refine Or.inr ⟨_, List.mem_eraseDups.mpr hmem, rest, ?_, by simpa using hlength⟩
    cases choice with
    | nil => exact absurd (List.forall₂_nil_left_iff.mp hchoice) hcolumns
    | cons start choice =>
        rw [ofText_intercalate, List.map_cons, List.cons_append, intercalate_cons,
          intercalate_cons, List.flatMap_append, List.append_assoc]

/-- Either there are no prefixes to plan with, or one of them begins the key. -/
theorem usablePrefixes_begin (config : PlannerConfig) {parts : List Key}
    (hequality : ∀ component ∈ info.rowKeyFormat.components, ∀ c ∈ conditions,
      c.column = component → c.operator = .eq)
    (hparts : List.Forall₂ (MeetsEqualities conditions) info.rowKeyFormat.components parts) :
    (usablePrefixes conditions info config).texts = [] ∨
      (usablePrefixes conditions info config).Begin (Key.ofText info.rowKeyFormat.separator)
        parts := by
  obtain ⟨choice, rest, rfl, hchoice, hlength⟩ := exists_choice_of_leadingTexts hequality hparts
  exact usablePrefixes_begin_of_choice config hchoice hlength

/-- A prefix range holds the keys that go on from the prefix, part by part; a complete prefix is a
whole key. -/
theorem mem_prefixRange {complete : Bool} {rest : List Key} (h : complete = true ↔ rest = [])
    (separator body : Key) :
    (body ++ rest.flatMap fun part => separator ++ part) ∈
      prefixRange complete separator body := by
  cases rest with
  | nil =>
      have hstop : ∀ stop ∈ (body ++ separator).prefixSuccessor, body < stop := by
        rw [Key.lt_prefixSuccessor_iff]
        cases separator with
        | nil => exact Or.inr (by simp)
        | cons byte separator => exact Or.inl (Key.lt_append_cons body byte separator)
      have hcomplete : complete = true := h.mpr rfl
      rw [hcomplete]
      simpa [prefixRange, mem_iff] using hstop
  | cons part rest =>
      have hcomplete : complete = false := by simpa using h
      rw [hcomplete, prefixRange, if_neg (by simp), mem_prefixed, List.flatMap_cons]
      exact ⟨part ++ rest.flatMap fun part => separator ++ part, by simp⟩

/-! ### All ways to plan -/

/-- Salted and unsalted, by prefixes and by the ranges that stand in for them, a key within the
bounds lies in a planned range, if its parts begin with a prefix or there are none. -/
theorem exists_mem_outerRanges (hcount : config.saltBucketCount ≠ 0)
    (hsalt : ∀ salt ∈ info.salt, ∀ range ∈ salt.ranges, range.first ≤ range.last)
    {prefixes : Prefixes} {parts : List Key} {bounds : KeyBounds} {key : Key}
    (hprefixes : prefixes.texts = [] ∨
      prefixes.Begin (Key.ofText info.rowKeyFormat.separator) parts)
    (hkey : info.Composes parts key) (hbounds : key ∈ bounds.keyRange) :
    ∃ ranges, outerRanges prefixes bounds info config = .ok ranges ∧
      ∃ range ∈ ranges, key ∈ range := by
  rw [outerRanges]
  cases hkey with
  | unsalted hinfo =>
      simp only [hinfo]
      split
      · exact ⟨_, rfl, .unbounded, by simp, mem_unbounded _⟩
      · rename_i htexts
        obtain ⟨text, htext, rest, heq, hcomplete⟩ := hprefixes.resolve_left htexts
        refine ⟨_, rfl, _, List.mem_map_of_mem htext, ?_⟩
        rw [heq]
        exact mem_prefixRange hcomplete _ _
  | @salted salt byte hinfo hbyte =>
      simp only [hinfo]
      split
      · obtain ⟨ranges, hranges, hcover⟩ :=
          exists_saltBucketRanges hcount (hsalt salt hinfo) bounds
        refine ⟨ranges, hranges, ?_⟩
        have hpos : 0 < coverCount ranges (byte :: Key.ofText info.rowKeyFormat.separator ++
            List.intercalate (Key.ofText info.rowKeyFormat.separator) parts) := by
          rw [hcover _ hbounds]
          obtain ⟨range, hrange, hcontains⟩ := (Salt.mem_bytes_iff salt byte).mp hbyte
          exact List.countP_pos_iff.mpr ⟨range, hrange, by simpa using hcontains⟩
        simpa [coverCount, List.countP_pos_iff] using hpos
      · rename_i hprefixed
        have htexts : prefixes.texts ≠ [] := by
          intro hnil
          simp [hnil] at hprefixed
        obtain ⟨text, htext, rest, heq, hcomplete⟩ := hprefixes.resolve_left htexts
        refine ⟨_, rfl, _, List.mem_flatMap.mpr ⟨text, htext, List.mem_map_of_mem hbyte⟩, ?_⟩
        rw [heq, ← List.append_assoc]
        exact mem_prefixRange hcomplete _ _

/-- The row-key conditions, if there are any, are those of ascending ranges of a text key. None of the
ranges is a single value, and one of them holds the key. -/
def MeetsRowKeyRanges (conditions : List Condition) (info : TableMeta) (key : Key) : Prop :=
  conditionsOn info.rowKeyColumn conditions = [] ∨
    info.rowKeyType = .varchar ∧ ∃ ranges : List ValueRange, ∃ type : ColumnType,
      conditionsOn info.rowKeyColumn conditions =
        ranges.flatMap (ValueRange.conditions info.rowKeyColumn type) ∧
      ValueRange.Ascending ranges ∧ (∀ range ∈ ranges, range.singleValue? = none) ∧
      ∃ range ∈ ranges, range.AdmitsKey key

theorem mem_hull_of_meetsRowKeyRanges {key : Key} (h : MeetsRowKeyRanges conditions info key) :
    key ∈ (KeyBounds.ofConditions conditions info).keyRange := by
  rw [KeyBounds.ofConditions]
  rcases h with hnil | ⟨htype, ranges, type, heq, hascending, hsingle, range, hrange, hadmits⟩
  · rw [hnil]
    split <;> exact mem_unbounded key
  · rw [if_pos htype, heq]
    exact KeyBounds.mem_keyRange_of_admitsKey hascending hrange
      ((ValueRange.forall_conditions_admitsKey_iff (hsingle range hrange) key).mpr hadmits)

/-- No row is lost by planning with prefixes: where the conditions on components are equalities, a
key lies in a planned range if its parts meet them and it meets the row-key ranges. -/
theorem planKeyRanges_covers {config : Config} (hconfig : config.fault? = none)
    (hsalt : ∀ salt ∈ info.salt, ∀ range ∈ salt.ranges, range.first ≤ range.last)
    (hequality : ∀ component ∈ info.rowKeyFormat.components, ∀ c ∈ conditions,
      c.column = component → c.operator = .eq)
    {parts : List Key} {key : Key}
    (hparts : List.Forall₂ (MeetsEqualities conditions) info.rowKeyFormat.components parts)
    (hkey : info.Composes parts key) (hranges : MeetsRowKeyRanges conditions info key) :
    ∃ ranges, planKeyRanges conditions info config.planner = .ok ranges ∧
      ∃ range ∈ ranges, key ∈ range := by
  have hbounds := mem_hull_of_meetsRowKeyRanges hranges
  have hprefixes := usablePrefixes_begin config.planner hequality hparts
  obtain ⟨outer, houter, range, hrange, hmem⟩ :=
    exists_mem_outerRanges (Config.saltBucketCount_ne_zero hconfig) hsalt hprefixes hkey hbounds
  obtain ⟨narrowed, hnarrowed, hmem⟩ := exists_mem_intersect hmem hbounds
  refine ⟨_, by rw [planKeyRanges, houter]; rfl, narrowed, ?_, hmem⟩
  exact List.mem_filterMap.mpr ⟨range, hrange, hnarrowed⟩

/-- The user is named by a text that is read as a number, and the key is bounded from below. -/
def visitsOfUser : List Condition :=
  [⟨"country", .eq, .varchar "cz", .varchar⟩, ⟨"user", .eq, .varchar " 007", .integer⟩,
    ⟨"visit", .ge, .varchar "b", .varchar⟩]

theorem planKeyRanges_covers_visit :
    ∃ ranges, planKeyRanges visitsOfUser
        { schema := "web", table := "visits", rowKeyColumn := "visit",
          rowKeyFormat := ⟨["country", "user"], "-"⟩, salt := some ⟨[⟨97, 98⟩]⟩ }
        ({} : Config).planner = .ok ranges ∧
      ∃ range ∈ ranges, Key.ofText "b-cz-7" ∈ range := by
  have hparts : List.Forall₂ (MeetsEqualities visitsOfUser) ["country", "user"]
      [Key.ofText "cz", Key.ofText "7"] := by
    refine .cons (fun _ _ => ?_) (.cons (fun _ _ => ?_) .nil)
    · exact ⟨⟨"country", .eq, .varchar "cz", .varchar⟩, by simp [conditionsOn, visitsOfUser],
        .varchar "cz", by decide, by decide⟩
    · exact ⟨⟨"user", .eq, .varchar " 007", .integer⟩, by simp [conditionsOn, visitsOfUser],
        .integer 7, by decide, by decide⟩
  have hrange : (ValueRange.atLeast (.varchar "b")).AdmitsKey (Key.ofText "b-cz-7") :=
    ⟨(by decide : Key.ofText "b" ≤ Key.ofText "b-cz-7"), trivial⟩
  refine planKeyRanges_covers (by decide) (by simp) (by simp [visitsOfUser]) hparts ?_ ?_
  · exact @TableMeta.Composes.salted _ _ _ 98 rfl (by decide)
  · exact Or.inr ⟨rfl, [.atLeast (.varchar "b")], .varchar, by decide,
      List.pairwise_singleton _ _, by decide, _, List.mem_singleton_self _, hrange⟩

end Planning

end KeyScan
