import KeyScan.Json.Parser
import KeyScan.Table.Document
import KeyScan.Table.FileTree

/-!
Directories of metadata documents: the document of a table is the file `schema/table.json`.
-/

namespace KeyScan

/-- A directory of documents, the home of a file tree. -/
abbrev MetaDirectory := FileTree

namespace MetaDirectory

/-- The file of a table's document. -/
def document (directory : MetaDirectory) (schema table : String) : PathTarget :=
  FileTree.read directory (FileTree.join schema (table ++ ".json"))

/-- The document that a text holds. -/
def parseDocument? (text : String) : Option TableDocument := do
  TableDocument.ofJson? (← Json.parse? text)

/-- Loads the metadata of a table; an empty schema is the default one. -/
def load (directory : MetaDirectory) (schema table : String) : Except Error TableMeta :=
  let schema := if schema = "" then defaultSchema else schema
  match document directory schema table with
  | .missing => .error (.notFound "table meta" (qualifiedName schema table))
  | .directory => .error .io
  | .unreachable => .error .io
  | .file bytes =>
      match Text.decode? bytes with
      | none => .error .io
      | some text =>
          match parseDocument? text with
          | none => .error (.malformedTableMeta (qualifiedName schema table))
          | some document => document.toMeta schema table

end MetaDirectory

end KeyScan
