import KeyScan.Proofs.Planning.Limits
import KeyScan.Proofs.Table.Documents
import KeyScan.Proofs.Text.Utf8
import KeyScan.Table.Directory

/-! # Metadata that is loaded

A file of a table that holds text leads to metadata that can be planned with, or to one kind of error.
Which of the two is settled by the document in it. -/

namespace KeyScan

/-- The error says that the metadata of a table is invalid, in its form or in what it says. -/
def Error.IsInvalidTableMeta (error : Error) : Prop :=
  (∃ table message, error = .invalidTableMeta table message) ∨
    ∃ table, error = .malformedTableMeta table

/-- Every valid configuration plans every read of the table, given regions where it asks for them. -/
def TableMeta.Plannable (info : TableMeta) : Prop :=
  ∀ config : Config, config.fault? = none →
    ∀ (σ : Type) (source : Planning.RegionSource σ),
      (∀ state, ∃ found next, source info.schema info.table state = (.ok found, next)) →
        ∀ shuffle conditions state, ∃ splits next,
          Planning.planWith config source shuffle conditions info state = (.ok splits, next)

namespace MetaDirectory

/-- The schema that is looked in; an empty name stands for the default one. -/
def schemaOf (schema : String) : String :=
  if schema = "" then defaultSchema else schema

variable {directory : MetaDirectory} {schema table text : String}

theorem load_of_malformed
    (h : directory.document (schemaOf schema) table = .file (Key.ofText text))
    (hmalformed : parseDocument? text = none) :
    directory.load schema table =
      .error (.malformedTableMeta (qualifiedName (schemaOf schema) table)) := by
  rw [schemaOf] at h ⊢
  simp only [load, h, Text.decode?_ofText, hmalformed]

theorem load_of_document
    (h : directory.document (schemaOf schema) table = .file (Key.ofText text))
    {document : TableDocument} (hdocument : parseDocument? text = some document) :
    directory.load schema table = document.toMeta (schemaOf schema) table := by
  rw [schemaOf] at h ⊢
  simp only [load, h, Text.decode?_ofText, hdocument]

/-- Where the file of a table can be read as text, it gives metadata exactly if the text is a document
that is complete, and an error of one kind if not. The metadata is valid and plans, its separator and
components are as planning needs them, and it has a salt exactly if the document has text for one that
is not blank. -/
theorem load_usable_or_invalid
    (h : directory.document (schemaOf schema) table = .file (Key.ofText text)) :
    ((∃ info, directory.load schema table = .ok info) ↔
      ∃ document, parseDocument? text = some document ∧ document.Complete table) ∧
    (∀ error, directory.load schema table = .error error → error.IsInvalidTableMeta) ∧
    ∀ info, directory.load schema table = .ok info →
      info.Plannable ∧ ∃ document, parseDocument? text = some document ∧ document.Yields info := by
  cases hdocument : parseDocument? text with
  | none =>
      rw [load_of_malformed h hdocument]
      refine ⟨by simp, ?_, by simp⟩
      rintro error herror
      exact Or.inr ⟨_, (Except.error.inj herror).symm⟩
  | some document =>
      rw [load_of_document h hdocument]
      simp only [Option.some.injEq, exists_eq_left']
      refine ⟨TableDocument.exists_toMeta_eq_ok_iff, ?_, ?_⟩
      · intro error herror
        exact Or.inl (TableDocument.exists_of_toMeta_eq_error herror)
      · intro info hinfo
        have hyields := TableDocument.yields_of_toMeta hinfo
        exact ⟨fun config hconfig σ source hsource =>
          Planning.exists_planWith_eq_ok hconfig hyields.accepted hsource, hyields⟩

/-- The table `default:visits` with a document in its file. -/
def visitsDirectory (text : String) : MetaDirectory where
  files := [(["default", "visits.json"], Key.ofText text)]

theorem document_visitsDirectory (text : String) :
    (visitsDirectory text).document "default" "visits" = .file (Key.ofText text) := by
  have hpath : FileTree.join "default" ("visits" ++ ".json") = "default/visits.json" := by
    decide +kernel
  have hrelative : "default/visits.json".startsWith "/" = false := by decide +kernel
  have hfollowed : (visitsDirectory text).isFollowed "default/visits.json" = true := by
    have hfrom : FileTree.join "/home/directory" "default/visits.json" =
        "/home/directory/default/visits.json" := by decide +kernel
    simp only [FileTree.isFollowed, visitsDirectory, hfrom, String.contains_char_eq]
    decide
  have hnames : FileTree.namesOf "default/visits.json" = ["default", "visits.json"] := by
    decide +kernel
  have hschema : ¬ FileTree.longestName < "default".utf8ByteSize := by decide
  have hfile : ¬ FileTree.longestName < "visits.json".utf8ByteSize := by decide
  rw [document, hpath, FileTree.read, if_pos hfollowed, FileTree.start, hrelative, hnames]
  simp [FileTree.follow, FileTree.target, visitsDirectory, hschema, hfile]

/-- An empty separator, blanks around the components of the row key with a blank piece among them, and
text for a salt. -/
def visitsDocument (ranges : String) : String :=
  "\x7b\"rowKeyColName\": \"visit\", \"rowKeyFormat\": \" country, ,visitor\",
    \"rowKeySeparator\": \"\", \"rowKeyFirstCharRange\": \"" ++ ranges ++ "\",
    \"columns\": [\x7b\"columnName\": \"visit\", \"isRowKey\": true\x7d]\x7d"

theorem complete_visitsDocument :
    ∃ document, parseDocument? (visitsDocument " 9-0 ,a~a") = some document ∧
      document.saltRanges = some " 9-0 ,a~a" ∧ document.Complete "visits" := by
  have hfields : (parseDocument? (visitsDocument " 9-0 ,a~a")).map (fun document =>
      (document.tableName, document.rowKeyColumn, document.saltRanges,
        document.columns.map fun column => (column.name, column.isRowKey))) =
      some (none, "visit", some " 9-0 ,a~a", [("visit", true)]) := by
    decide +kernel
  have hsalt : Salt.parse (Text.trim " 9-0 ,a~a") = .ok ⟨[⟨48, 57⟩, ⟨97, 97⟩]⟩ := by
    rw [Salt.parse_eq_ok_iff, Salt.ofRanges, List.mergeSort_of_pairwise (by decide)]
    decide
  obtain ⟨document, hdocument, hparts⟩ := Option.map_eq_some_iff.mp hfields
  simp only [Prod.mk.injEq] at hparts
  obtain ⟨hname, hkey, hranges, hcolumns⟩ := hparts
  refine ⟨document, hdocument, hranges, ?_⟩
  exact {
    named := by
      rw [hname]
      decide
    keyed := by
      rw [hkey]
      decide
    flagged := by
      obtain ⟨column, hcolumn, hflag⟩ := List.map_eq_singleton_iff.mp hcolumns
      obtain ⟨hcolumnName, hisRowKey⟩ := Prod.mk.inj hflag
      exact Or.inr ⟨column, by simp [hcolumn, hisRowKey], by rw [hcolumnName, hkey]⟩
    salted := by
      intro ranges hmem _
      obtain rfl := Option.mem_unique hmem hranges
      exact ⟨_, Salt.parse_eq_ok_iff_declares.mp hsalt⟩ }

theorem load_usable_or_invalid_visits :
    (∃ info, (visitsDirectory (visitsDocument " 9-0 ,a~a")).load "" "visits" = .ok info ∧
      info.validate = .ok () ∧ info.rowKeyFormat.separator ≠ "" ∧ info.salt ≠ none) ∧
    ∃ error, (visitsDirectory (visitsDocument "09")).load "" "visits" = .error error ∧
      error.IsInvalidTableMeta := by
  constructor
  · obtain ⟨hloads, _, hyields⟩ := @load_usable_or_invalid _ "" "visits" _
      (document_visitsDirectory (visitsDocument " 9-0 ,a~a"))
    obtain ⟨document, hdocument, hranges, hcomplete⟩ := complete_visitsDocument
    obtain ⟨info, hinfo⟩ := hloads.mpr ⟨document, hdocument, hcomplete⟩
    obtain ⟨_, other, hother, hyield⟩ := hyields info hinfo
    obtain rfl := Option.some.inj (hdocument.symm.trans hother)
    refine ⟨info, hinfo, hyield.accepted, hyield.separated, ?_⟩
    rw [ne_eq, hyield.unsalted, hranges]
    decide
  · obtain ⟨hloads, herrors, _⟩ := @load_usable_or_invalid _ "" "visits" _
      (document_visitsDirectory (visitsDocument "09"))
    have hranges : (parseDocument? (visitsDocument "09")).map TableDocument.saltRanges =
        some (some "09") := by decide +kernel
    cases hload : (visitsDirectory (visitsDocument "09")).load "" "visits" with
    | error failure => exact ⟨failure, rfl, herrors failure hload⟩
    | ok info =>
        obtain ⟨document, hdocument, hcomplete⟩ := hloads.mp ⟨info, hload⟩
        rw [hdocument, Option.map_some, Option.some.injEq] at hranges
        obtain ⟨declared, hdeclares⟩ := hcomplete.salted "09" hranges (by decide)
        have hparse : Salt.parse (Text.trim "09") = .ok ⟨declared⟩ :=
          Salt.parse_eq_ok_iff_declares.mpr hdeclares
        have hrefused : Salt.parse (Text.trim "09") =
            .error (.invalidRange "09" "expected \x60start-end\x60") := by decide
        simp [hparse] at hrefused

end MetaDirectory

end KeyScan
