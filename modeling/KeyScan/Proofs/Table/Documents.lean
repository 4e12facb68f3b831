import KeyScan.Proofs.Salt.Declarations
import KeyScan.Table.Document

/-! # What documents come to

A document gives metadata exactly if its names are there, its columns flag the row key and its salt
ranges, if it has any, declare an alphabet. A separator can be missing from a document but not from the
metadata. -/

namespace KeyScan

/-! ### Valid metadata -/

namespace TableMeta

variable {info : TableMeta}

/-- One column is flagged as the row key, under its name, unless no columns are declared. -/
def FlagsRowKey (info : TableMeta) : Prop :=
  info.columns = [] ∨
    ∃ flagged, info.columns.filter Column.isRowKey = [flagged] ∧ flagged.name = info.rowKeyColumn

theorem rowKeyFlagFault?_eq_none_iff : info.rowKeyFlagFault? = none ↔ info.FlagsRowKey := by
  rw [rowKeyFlagFault?, FlagsRowKey]
  cases hcolumns : info.columns with
  | nil => simp
  | cons first rest =>
      rcases hflagged : (first :: rest).filter Column.isRowKey with _ | ⟨flagged, _ | ⟨second, others⟩⟩
      · simp
      · by_cases hname : flagged.name = info.rowKeyColumn <;> simp [hname]
      · simp

theorem validate_eq_ok_iff_fault? : info.validate = .ok () ↔ info.fault? = none := by
  rw [validate]
  cases info.fault? <;> simp

theorem validate_eq_ok_iff :
    info.validate = .ok () ↔
      Text.isAllBlank info.table = false ∧ Text.isAllBlank info.rowKeyColumn = false ∧
        info.FlagsRowKey ∧ (info.needsSeparator = true → info.rowKeyFormat.separator ≠ "") := by
  rw [validate_eq_ok_iff_fault?, ← rowKeyFlagFault?_eq_none_iff, fault?]
  by_cases htable : Text.isAllBlank info.table = true
  · simp [htable]
  · by_cases hrowKey : Text.isAllBlank info.rowKeyColumn = true
    · simp [htable, hrowKey]
    · cases hflag : info.rowKeyFlagFault? <;> simp [htable, hrowKey]

theorem exists_of_validate_eq_error {error : Error} (h : info.validate = .error error) :
    ∃ message, error = .invalidTableMeta info.qualified message := by
  rw [validate] at h
  split at h
  · exact ⟨_, (Except.error.inj h).symm⟩
  · simp at h

end TableMeta

/-! ### Components of the row key -/

namespace RowKeyFormat

variable {format separator name : String}

/-- The components are the pieces of the text that are not blank, in order and trimmed. -/
theorem forall₂_trims_parse (format separator : String) :
    List.Forall₂ (fun piece name => Text.Trims piece.toList name.toList)
      ((Text.pieces ',' format).filter fun piece => !Text.isAllBlank piece)
      (parse format separator).components := by
  have hblank : ((fun name => decide (name ≠ "")) ∘ Text.trim) =
      fun piece => !Text.isAllBlank piece := by
    funext piece
    rw [Function.comp_apply, Bool.eq_iff_iff]
    simp [Text.trim_eq_empty_iff]
  have hkept : (parse format separator).components =
      ((Text.pieces ',' format).filter fun piece => !Text.isAllBlank piece).map Text.trim := by
    rw [parse, List.filter_map, hblank]
  rw [hkept, List.forall₂_map_right_iff, List.forall₂_same]
  intro piece _
  rw [Text.toList_trim]
  exact Text.trims_trimChars piece.toList

theorem of_mem_parse (h : name ∈ (parse format separator).components) :
    Text.isAllBlank name = false ∧ ',' ∉ name.toList ∧ Text.trim name = name := by
  rw [parse, List.mem_filter, List.mem_map] at h
  obtain ⟨⟨piece, hpiece, rfl⟩, hname⟩ := h
  refine ⟨?_, ?_, Text.trim_trim piece⟩
  · rw [← Bool.not_eq_true, ← Text.trim_eq_empty_iff, Text.trim_trim]
    simpa using hname
  · rw [Text.toList_trim]
    exact fun hcomma => Text.not_mem_of_mem_pieces hpiece (Text.mem_of_mem_trimChars hcomma)

end RowKeyFormat

namespace TableDocument

variable {document : TableDocument} {schema table qualified : String} {info : TableMeta}

theorem separator_ne_empty (document : TableDocument) : document.separator ≠ "" := by
  rw [separator]
  split
  · split
    · decide
    · assumption
  · decide

/-! ### Salt -/

/-- There is no salt where its text is missing or blank; other text is read as an alphabet, and a failure
is told as one of the metadata. -/
theorem salt_cases (document : TableDocument) (qualified : String) :
    ((∀ ranges ∈ document.saltRanges, Text.isAllBlank ranges = true) ∧
        document.salt qualified = .ok none) ∨
      ∃ ranges, document.saltRanges = some ranges ∧ Text.isAllBlank ranges = false ∧
        document.salt qualified =
          ((Salt.parse (Text.trim ranges)).map some).mapError fun failure =>
            .invalidTableMeta qualified ("rowKeyFirstCharRange: " ++ failure.message) := by
  rw [salt]
  cases document.saltRanges with
  | none => exact Or.inl ⟨by simp, rfl⟩
  | some ranges =>
      cases hblank : Text.isAllBlank ranges with
      | true =>
          rw [Option.map_some, Text.trim_eq_empty_iff.mpr hblank]
          exact Or.inl ⟨by simpa using hblank, rfl⟩
      | false =>
          have hne : Text.trim ranges ≠ "" := by simp [Text.trim_eq_empty_iff, hblank]
          refine Or.inr ⟨ranges, rfl, hblank, ?_⟩
          rw [Option.map_some]
          split
          · simp_all
          · simp_all
          · rename_i text htext
            obtain rfl := Option.some.inj htext
            cases Salt.parse (Text.trim ranges) <;> rfl

theorem salt_eq_ok_none_iff :
    document.salt qualified = .ok none ↔
      ∀ ranges ∈ document.saltRanges, Text.isAllBlank ranges = true := by
  rcases document.salt_cases qualified with ⟨hblank, hsalt⟩ | ⟨ranges, hranges, hblank, hsalt⟩
  · simp only [hsalt, true_iff]
    exact hblank
  · rw [hsalt, hranges]
    cases Salt.parse (Text.trim ranges) <;> simp [Except.map, Except.mapError, hblank]

theorem salt_eq_ok_some_iff {alphabet : Salt} :
    document.salt qualified = .ok (some alphabet) ↔
      ∃ ranges ∈ document.saltRanges, Text.isAllBlank ranges = false ∧
        Salt.parse (Text.trim ranges) = .ok alphabet := by
  rcases document.salt_cases qualified with ⟨hblank, hsalt⟩ | ⟨ranges, hranges, hblank, hsalt⟩
  · simp only [hsalt, Except.ok.injEq, reduceCtorEq, false_iff]
    rintro ⟨ranges, hranges, hnot, _⟩
    simp [hblank ranges hranges] at hnot
  · rw [hsalt, hranges]
    cases hparse : Salt.parse (Text.trim ranges) <;>
      simp [Except.map, Except.mapError, hblank, hparse]

theorem exists_of_salt_eq_error {error : Error} (h : document.salt qualified = .error error) :
    ∃ message, error = .invalidTableMeta qualified message := by
  rcases document.salt_cases qualified with ⟨_, hsalt⟩ | ⟨ranges, _, _, hsalt⟩
  · simp [hsalt] at h
  · rw [hsalt] at h
    cases hparse : Salt.parse (Text.trim ranges) with
    | ok alphabet => simp [hparse, Except.map, Except.mapError] at h
    | error failure =>
        simp only [hparse, Except.map, Except.mapError, Except.error.injEq] at h
        exact ⟨_, h.symm⟩

/-! ### Metadata -/

/-- The metadata that a document kept for a schema and a table describes, valid or not. -/
def described (document : TableDocument) (schema table : String) (salt : Option Salt) :
    TableMeta where
  schema := document.schemaName.getD schema
  table := document.tableName.getD table
  rowKeyColumn := document.rowKeyColumn
  rowKeyFormat := RowKeyFormat.parse document.rowKeyFormat document.separator
  salt := salt
  columns := document.columns.map DocumentColumn.toColumn

/-- The columns flag the row key as those of valid metadata do. -/
def FlagsRowKey (document : TableDocument) : Prop :=
  document.columns = [] ∨
    ∃ flagged, document.columns.filter DocumentColumn.isRowKey = [flagged] ∧
      flagged.name = document.rowKeyColumn

/-- The names of the metadata are there, its columns flag the row key, and its salt ranges, if it has
any, declare an alphabet. -/
structure Complete (document : TableDocument) (table : String) : Prop where
  named : Text.isAllBlank (document.tableName.getD table) = false
  keyed : Text.isAllBlank document.rowKeyColumn = false
  flagged : document.FlagsRowKey
  salted : ∀ ranges ∈ document.saltRanges, Text.isAllBlank ranges = false →
    ∃ declared, Salt.Declares (Text.trim ranges) declared

/-- The metadata is valid, has what planning relies on, and keeps to the document. -/
structure Yields (document : TableDocument) (info : TableMeta) : Prop where
  accepted : info.validate = .ok ()
  separated : info.rowKeyFormat.separator ≠ ""
  named : ∀ name ∈ info.rowKeyFormat.components,
    Text.isAllBlank name = false ∧ ',' ∉ name.toList ∧ Text.trim name = name
  inOrder : ∃ pieces, Text.SplitAt ',' document.rowKeyFormat pieces ∧
    List.Forall₂ (fun piece name => Text.Trims piece.toList name.toList)
      (pieces.filter fun piece => !Text.isAllBlank piece) info.rowKeyFormat.components
  unsalted : info.salt = none ↔ ∀ ranges ∈ document.saltRanges, Text.isAllBlank ranges = true
  salted : ∀ salt ∈ info.salt, salt.Valid ∧ salt.ranges.Pairwise CharRange.Disjoint ∧
    ∃ ranges ∈ document.saltRanges, Salt.Declares (Text.trim ranges) salt.ranges

theorem toMeta_eq_ok_iff :
    document.toMeta schema table = .ok info ↔
      ∃ salt,
        document.salt (qualifiedName (document.schemaName.getD schema)
          (document.tableName.getD table)) = .ok salt ∧
        (document.described schema table salt).validate = .ok () ∧
        info = document.described schema table salt := by
  simp only [toMeta, bind_eq_ok_iff]
  constructor
  · rintro ⟨salt, hsalt, _, hvalid, hinfo⟩
    exact ⟨salt, hsalt, hvalid, (Except.ok.inj hinfo).symm⟩
  · rintro ⟨salt, hsalt, hvalid, rfl⟩
    exact ⟨salt, hsalt, (), hvalid, rfl⟩

/-- A document fails to come to metadata with one kind of error, that of its salt among them. -/
theorem exists_of_toMeta_eq_error {error : Error} (h : document.toMeta schema table = .error error) :
    ∃ qualified message, error = .invalidTableMeta qualified message := by
  simp only [toMeta, bind_eq_error_iff] at h
  rcases h with hsalt | ⟨salt, _, hvalid | ⟨_, _, h⟩⟩
  · exact ⟨_, exists_of_salt_eq_error hsalt⟩
  · exact ⟨_, TableMeta.exists_of_validate_eq_error hvalid⟩
  · simp [pure, Except.pure] at h

theorem flagsRowKey_described_iff {salt : Option Salt} :
    (document.described schema table salt).FlagsRowKey ↔ document.FlagsRowKey := by
  have hfilter : (document.columns.map DocumentColumn.toColumn).filter Column.isRowKey =
      (document.columns.filter DocumentColumn.isRowKey).map DocumentColumn.toColumn :=
    List.filter_map
  rw [TableMeta.FlagsRowKey, FlagsRowKey, described, List.map_eq_nil_iff, hfilter]
  apply or_congr_right
  constructor
  · rintro ⟨column, hflagged, hname⟩
    obtain ⟨flagged, honly, rfl⟩ := List.map_eq_singleton_iff.mp hflagged
    exact ⟨flagged, honly, hname⟩
  · rintro ⟨flagged, honly, hname⟩
    exact ⟨flagged.toColumn, by rw [honly, List.map_singleton], hname⟩

/-- The separator is never what keeps a document from coming to metadata. -/
theorem validate_described_iff {salt : Option Salt} :
    (document.described schema table salt).validate = .ok () ↔
      Text.isAllBlank (document.tableName.getD table) = false ∧
        Text.isAllBlank document.rowKeyColumn = false ∧ document.FlagsRowKey := by
  have hseparator : (document.described schema table salt).rowKeyFormat.separator ≠ "" :=
    document.separator_ne_empty
  rw [TableMeta.validate_eq_ok_iff, flagsRowKey_described_iff]
  simp only [hseparator, ne_eq, not_false_eq_true, implies_true, and_true]
  rfl

theorem exists_toMeta_eq_ok_iff :
    (∃ info, document.toMeta schema table = .ok info) ↔ document.Complete table := by
  constructor
  · rintro ⟨info, h⟩
    obtain ⟨salt, hsalt, hvalid, rfl⟩ := toMeta_eq_ok_iff.mp h
    obtain ⟨hnamed, hkeyed, hflagged⟩ := validate_described_iff.mp hvalid
    refine ⟨hnamed, hkeyed, hflagged, ?_⟩
    intro ranges hranges hblank
    cases salt with
    | none => simp [salt_eq_ok_none_iff.mp hsalt ranges hranges] at hblank
    | some alphabet =>
        obtain ⟨text, htext, _, hparse⟩ := salt_eq_ok_some_iff.mp hsalt
        obtain rfl := Option.mem_unique hranges htext
        exact ⟨alphabet.ranges, Salt.parse_eq_ok_iff_declares.mp hparse⟩
  · intro h
    obtain ⟨salt, hsalt⟩ : ∃ salt, document.salt (qualifiedName (document.schemaName.getD schema)
        (document.tableName.getD table)) = .ok salt := by
      by_cases hblank : ∀ ranges ∈ document.saltRanges, Text.isAllBlank ranges = true
      · exact ⟨none, salt_eq_ok_none_iff.mpr hblank⟩
      · push Not at hblank
        obtain ⟨ranges, hranges, hnot⟩ := hblank
        have hfalse : Text.isAllBlank ranges = false := Bool.eq_false_iff.mpr hnot
        obtain ⟨declared, hdeclares⟩ := h.salted ranges hranges hfalse
        exact ⟨some ⟨declared⟩, salt_eq_ok_some_iff.mpr ⟨ranges, hranges, hfalse,
          Salt.parse_eq_ok_iff_declares.mpr hdeclares⟩⟩
    exact ⟨_, toMeta_eq_ok_iff.mpr
      ⟨salt, hsalt, validate_described_iff.mpr ⟨h.named, h.keyed, h.flagged⟩, rfl⟩⟩

theorem yields_of_toMeta (h : document.toMeta schema table = .ok info) : document.Yields info := by
  obtain ⟨salt, hsalt, hvalid, rfl⟩ := toMeta_eq_ok_iff.mp h
  exact {
    accepted := hvalid
    separated := document.separator_ne_empty
    named := fun _ => RowKeyFormat.of_mem_parse
    inOrder := ⟨_, Text.splitAt_pieces ',' document.rowKeyFormat,
      RowKeyFormat.forall₂_trims_parse document.rowKeyFormat document.separator⟩
    unsalted := by
      rw [← salt_eq_ok_none_iff, hsalt]
      simp [described]
    salted := by
      rintro alphabet (hsalted : salt = some alphabet)
      rw [hsalted] at hsalt
      obtain ⟨ranges, hranges, _, hparse⟩ := salt_eq_ok_some_iff.mp hsalt
      have hdeclares := Salt.parse_eq_ok_iff_declares.mp hparse
      exact ⟨Salt.valid_of_parse hparse, hdeclares.pairwise_disjoint, ranges, hranges, hdeclares⟩ }

end TableDocument

end KeyScan
