import KeyScan.Proofs.Json.Record
import KeyScan.Proofs.Salt.Grammar
import KeyScan.Wire.Table

/-! # Table metadata in JSON

Metadata is read back from its JSON form as far as its salt is: the salt is written as text and read as
text is. -/

namespace KeyScan

theorem ColumnType.ofJson?_toJson (type : ColumnType) : ofJson? type.toJson = some type := by
  cases type <;> rfl

theorem Column.ofJson?_toJson (column : Column) : ofJson? column.toJson = some column := by
  rw [ofJson?, toJson, Json.record?_object (by rfl) (by decide)]
  simp [Json.Record.required, Json.Record.find?, Json.text?, Json.bool?, ColumnType.ofJson?_toJson]

theorem RowKeyFormat.ofJson?_toJson (format : RowKeyFormat) :
    ofJson? format.toJson = some format := by
  have hcomponents : Json.list? Json.text? (.texts format.components) = some format.components :=
    Json.list?_array_map fun _ _ => rfl
  rw [ofJson?, toJson, Json.record?_object (by rfl) (by decide)]
  simp [Json.Record.required, Json.Record.find?, Json.text?, hcomponents]

namespace TableMeta

/-- Everything but the salt is read back as it is. -/
theorem ofJson?_toJson (info : TableMeta) :
    ofJson? info.toJson =
      (Json.optional? Salt.ofJson? (.optional Salt.toJson info.salt)).map fun salt =>
        { info with salt } := by
  have hcolumns : Json.list? Column.ofJson? (.array (info.columns.map Column.toJson)) =
      some info.columns :=
    Json.list?_array_map fun column _ => column.ofJson?_toJson
  rw [ofJson?, toJson, Json.record?_object (by rfl) (by decide)]
  cases hsalt : Json.optional? Salt.ofJson? (.optional Salt.toJson info.salt) <;>
    simp [Json.Record.required, Json.Record.defaulted, Json.Record.find?, Json.text?,
      RowKeyFormat.ofJson?_toJson, hcolumns, hsalt]

/-- Metadata with a salt is read back exactly if the salt is read back from its text. -/
theorem ofJson?_toJson_iff {info : TableMeta} {salt : Salt} (h : info.salt = some salt) :
    ofJson? info.toJson = some info ↔ Salt.parse salt.text = .ok salt := by
  have hsalt : Json.optional? Salt.ofJson? (.optional Salt.toJson info.salt) =
      (Salt.parse salt.text).toOption.map some := by
    rw [h]
    rfl
  rw [ofJson?_toJson, hsalt]
  cases Salt.parse salt.text with
  | error failure => simp [Except.toOption]
  | ok other =>
      obtain ⟨schema, table, rowKeyColumn, rowKeyFormat, held, columns⟩ := info
      simp_all [Except.toOption]

end TableMeta

/-- An alphabet that was read is recovered from its own text, and metadata with it from its JSON form,
exactly if neither bound of a range stands where a mark between bounds is looked for: no range starts
with a hyphen, and none starts or ends with a tilde. -/
theorem salt_recovered_iff {input : String} {salt : Salt} (h : Salt.parse input = .ok salt) :
    (Salt.parse salt.text = .ok salt ↔ ∀ range ∈ salt.ranges, range.Readable) ∧
      ∀ info : TableMeta, info.salt = some salt →
        (TableMeta.ofJson? info.toJson = some info ↔ ∀ range ∈ salt.ranges, range.Readable) := by
  have hiff := Salt.parse_text_iff h
  refine ⟨hiff, ?_⟩
  intro info hinfo
  rw [TableMeta.ofJson?_toJson_iff hinfo, hiff]

/-- Metadata of a table whose keys carry the given salt. -/
def salted (salt : Salt) : TableMeta where
  schema := "default"
  table := "visits"
  rowKeyColumn := "visit"
  salt := some salt

/-- A range that ends with a hyphen, digits by their tilde and in the wrong order, and a letter alone. -/
theorem salt_recovered_digits :
    ∃ salt : Salt, salt.text = "!--,0-9,A-A" ∧ Salt.parse " !--, 9~0,A" = .ok salt ∧
      Salt.parse salt.text = .ok salt ∧
      TableMeta.ofJson? (salted salt).toJson = some (salted salt) := by
  have hparse : Salt.parse " !--, 9~0,A" = .ok ⟨[⟨33, 45⟩, ⟨48, 57⟩, ⟨65, 65⟩]⟩ := by
    rw [Salt.parse_eq_ok_iff, Salt.ofRanges, List.mergeSort_of_pairwise (by decide)]
    decide
  have hreadable : ∀ range ∈ [⟨33, 45⟩, ⟨48, 57⟩, ⟨65, 65⟩], CharRange.Readable range := by decide
  obtain ⟨htext, hjson⟩ := salt_recovered_iff hparse
  exact ⟨_, by decide, hparse, htext.mpr hreadable, (hjson (salted _) rfl).mpr hreadable⟩

/-- A tilde alone is read as an alphabet whose text is not read. -/
theorem salt_not_recovered :
    ∃ salt : Salt, Salt.parse "~" = .ok salt ∧ salt.text = "~-~" ∧
      Salt.parse salt.text =
        .error (.invalidRange "~-~" "bounds must be single ASCII characters") ∧
      TableMeta.ofJson? (salted salt).toJson = none := by
  have hparse : Salt.parse "~" = .ok ⟨[⟨126, 126⟩]⟩ := by
    rw [Salt.parse_eq_ok_iff, Salt.ofRanges, List.mergeSort_singleton]
    decide
  have hsalt : Salt.parse (Salt.mk [⟨126, 126⟩]).text =
      .error (.invalidRange "~-~" "bounds must be single ASCII characters") := by decide
  refine ⟨_, hparse, by decide, hsalt, ?_⟩
  rw [TableMeta.ofJson?_toJson]
  simp [salted, Json.optional, Json.optional?, Salt.toJson, Salt.ofJson?, Json.text?, hsalt,
    Except.toOption]

end KeyScan
