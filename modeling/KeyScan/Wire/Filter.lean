import KeyScan.Filter.Basic
import KeyScan.Json.Tagged

/-!
JSON forms of filters. A filter is its type and, except for `first_key_only`, its arguments.
-/

namespace KeyScan

namespace Comparison

def tag : Comparison → String
  | equal => "equal"
  | greater => "greater"
  | greaterOrEqual => "greater_or_equal"
  | less => "less"
  | lessOrEqual => "less_or_equal"

def ofTag? : String → Option Comparison
  | "equal" => some equal
  | "greater" => some greater
  | "greater_or_equal" => some greaterOrEqual
  | "less" => some less
  | "less_or_equal" => some lessOrEqual
  | _ => none

def toJson (comparison : Comparison) : Json := .text comparison.tag

def ofJson? (kept : Bool) (value : Json) : Option Comparison :=
  (value.choiceName? kept).bind ofTag?

end Comparison

namespace CellFilter

def toJson (filter : CellFilter) : Json :=
  .object [("family", .text filter.family), ("qualifier", .text filter.qualifier),
    ("op", filter.comparison.toJson), ("value", .bytes filter.value),
    ("filter_if_missing", .bool filter.filterIfMissing)]

def fields : List String := ["family", "qualifier", "op", "value", "filter_if_missing"]

def ofJson? (kept : Bool) (value : Json) : Option CellFilter := do
  let record ← value.record? fields
  return {
    family := ← record.required "family" Json.text?
    qualifier := ← record.required "qualifier" Json.text?
    comparison := ← record.required "op" (Comparison.ofJson? kept)
    value := ← record.required "value" Json.bytes?
    filterIfMissing := ← record.required "filter_if_missing" Json.bool? }

end CellFilter

namespace KeyFilter

def toJson (filter : KeyFilter) : Json :=
  .object [("op", filter.comparison.toJson), ("value", .bytes filter.value)]

def fields : List String := ["op", "value"]

def ofJson? (kept : Bool) (value : Json) : Option KeyFilter := do
  let record ← value.record? fields
  return {
    comparison := ← record.required "op" (Comparison.ofJson? kept)
    value := ← record.required "value" Json.bytes? }

end KeyFilter

namespace ScanFilter

def tagged (type : String) (args : Json) : Json :=
  .object [("type", .text type), ("args", args)]

mutual

def toJson : ScanFilter → Json
  | firstKeyOnly => .object [("type", .text "first_key_only")]
  | column filter => tagged "column" filter.toJson
  | rowKey filter => tagged "row_key" filter.toJson
  | anyOf children => tagged "any_of" (.array (toJsons children))
  | allOf children => tagged "all_of" (.array (toJsons children))

def toJsons : List ScanFilter → List Json
  | [] => []
  | child :: rest => child.toJson :: toJsons rest

end

/-- The types of filters. -/
def types : List String := ["first_key_only", "column", "row_key", "any_of", "all_of"]

/-- The reader of the arguments by the type; `children` are the filters that they list. -/
def ofArgs? (kept : Bool) (args : Option Json) (children : Option (List ScanFilter)) :
    String → Option ScanFilter
  | "first_key_only" =>
      match args with
      | none => some firstKeyOnly
      | some .null => some firstKeyOnly
      | some _ => none
  | "column" => (args.bind (CellFilter.ofJson? kept)).map column
  | "row_key" => (args.bind (KeyFilter.ofJson? kept)).map rowKey
  | "any_of" => children.map anyOf
  | "all_of" => children.map allOf
  | _ => none

mutual

/-- Reads a filter as it comes, or from arguments that have been `kept` until their filter's type
was known. -/
def readJson? (kept : Bool) : Json → Option ScanFilter
  | .object members => do
      let parts ← (Json.object members).tagged? kept types "type" "args"
      ofArgs? parts.kept parts.content (argsChildren? parts.kept members) parts.kind
  | .array [type, args] => do
      ofArgs? kept (some args) (children? kept args) (← Json.headKind? kept types type)
  | _ => none

/-- The filters that the first member called `args` lists. -/
def argsChildren? (kept : Bool) : List (String × Json) → Option (List ScanFilter)
  | [] => none
  | (name, value) :: rest =>
      if name = "args" then children? kept value else argsChildren? kept rest

/-- The filters that an array lists. -/
def children? (kept : Bool) : Json → Option (List ScanFilter)
  | .array items => readAll? kept items
  | _ => none

def readAll? (kept : Bool) : List Json → Option (List ScanFilter)
  | [] => some []
  | item :: rest => do
      let child ← readJson? kept item
      let children ← readAll? kept rest
      return child :: children

end

def ofJson? : Json → Option ScanFilter := readJson? false

/-! ### Nesting -/

/-- The depth of the members of a record that are looked at. -/
def fieldsDepth (fields : List String) : List (String × Json) → Nat
  | [] => 0
  | (name, value) :: rest =>
      max (if fields.contains name then value.depth else 0) (fieldsDepth fields rest)

/-- The fields of the arguments by the type of their filter. -/
def argsFields : String → List String
  | "column" => CellFilter.fields
  | "row_key" => KeyFilter.fields
  | _ => []

mutual

/-- How deeply the arrays and objects that a reader of filters looks at stand inside each other.
Arguments before the type are kept whole, so all of them count. -/
def nesting : Json → Nat
  | .object members => membersNesting none members + 1
  | .array [type, args] => max type.depth (argsNesting (type.choiceName? false) args) + 1
  | .array _ => 1
  | _ => 0

def membersNesting (type : Option String) : List (String × Json) → Nat
  | [] => 0
  | (name, value) :: rest =>
      if name = "args" then
        max (if type.isSome then argsNesting type value else value.depth) (membersNesting type rest)
      else if name = "type" then
        max value.depth (membersNesting (value.choiceName? false) rest)
      else membersNesting type rest

def argsNesting (type : Option String) : Json → Nat
  | .array items => itemsNesting items + 1
  | .object members => fieldsDepth ((type.map argsFields).getD []) members + 1
  | _ => 0

def itemsNesting : List Json → Nat
  | [] => 0
  | item :: rest => max (nesting item) (itemsNesting rest)

end

end ScanFilter

end KeyScan
