import KeyScan.Proofs.Json.Record
import KeyScan.Proofs.Wire.Split
import KeyScan.Wire.Request

/-! # Requests in JSON

Requests are read back from their JSON form with filters of any shape and depth. Text that nests
deeply is refused though, and how deeply the text of a request nests is told by its filter. -/

namespace KeyScan

open Json.Record

theorem CellAddress.ofJson?_toJson (address : CellAddress) :
    ofJson? address.toJson = some address := by
  rw [ofJson?, toJson, Json.record?_object (by rfl) (by decide)]
  simp [required, find?, Json.text?]

theorem CellAddress.exact_toJson (address : CellAddress) : address.toJson.Exact := by
  simp [toJson]

theorem Comparison.ofJson?_toJson (kept : Bool) (comparison : Comparison) :
    ofJson? kept comparison.toJson = some comparison := by
  cases comparison <;> rfl

theorem CellFilter.ofJson?_toJson (kept : Bool) (filter : CellFilter) :
    ofJson? kept filter.toJson = some filter := by
  rw [ofJson?, toJson, Json.record?_object (by rfl) (by decide)]
  simp [required, find?, Json.text?, Json.bool?, Json.bytes?_bytes, Comparison.ofJson?_toJson]

theorem CellFilter.exact_toJson (filter : CellFilter) : filter.toJson.Exact := by
  simp [toJson, Comparison.toJson]

theorem KeyFilter.ofJson?_toJson (kept : Bool) (filter : KeyFilter) :
    ofJson? kept filter.toJson = some filter := by
  rw [ofJson?, toJson, Json.record?_object (by rfl) (by decide)]
  simp [required, find?, Json.bytes?_bytes, Comparison.ofJson?_toJson]

theorem KeyFilter.exact_toJson (filter : KeyFilter) : filter.toJson.Exact := by
  simp [toJson, Comparison.toJson]

/-! ### Filters -/

namespace ScanFilter

mutual

/-- How deeply the JSON form of a filter nests: two levels for "any" and "all", three for a
comparison with its bytes, one for a filter that is its type alone. -/
def levels : ScanFilter → Nat
  | firstKeyOnly => 1
  | column _ => 3
  | rowKey _ => 3
  | anyOf children => levelsOfAll children + 2
  | allOf children => levelsOfAll children + 2

def levelsOfAll : List ScanFilter → Nat
  | [] => 0
  | child :: rest => max child.levels (levelsOfAll rest)

end

/-- Written with its type first, a filter is read as what its arguments give. -/
theorem readJson?_tagged (kept : Bool) (type : String) (args : Json) :
    readJson? kept (tagged type args) =
      ofArgs? kept (some args) (children? kept args) type := by
  have hparts : (tagged type args).tagged? kept types "type" "args" =
      some ⟨type, some args, kept⟩ := by
    simp [tagged, Json.tagged?, Json.choiceName?, Json.membersAreStrict]
  rw [tagged] at hparts ⊢
  rw [readJson?, hparts]
  simp [argsChildren?]

mutual

/-- Any tree of filters is read back, by induction over the tree. -/
theorem readJson?_toJson (kept : Bool) (filter : ScanFilter) :
    readJson? kept filter.toJson = some filter := by
  cases filter with
  | firstKeyOnly => rfl
  | column filter =>
      rw [toJson, readJson?_tagged]
      simp [ofArgs?, filter.ofJson?_toJson]
  | rowKey filter =>
      rw [toJson, readJson?_tagged]
      simp [ofArgs?, filter.ofJson?_toJson]
  | anyOf children =>
      rw [toJson, readJson?_tagged, children?, readAll?_toJsons kept children]
      rfl
  | allOf children =>
      rw [toJson, readJson?_tagged, children?, readAll?_toJsons kept children]
      rfl

theorem readAll?_toJsons (kept : Bool) (filters : List ScanFilter) :
    readAll? kept (toJsons filters) = some filters := by
  cases filters with
  | nil => rfl
  | cons filter rest =>
      rw [toJsons, readAll?, readJson?_toJson kept filter, readAll?_toJsons kept rest]
      rfl

end

mutual

theorem exact_toJson (filter : ScanFilter) : filter.toJson.Exact := by
  cases filter with
  | firstKeyOnly => simp [toJson]
  | column filter => simp [toJson, tagged, filter.exact_toJson]
  | rowKey filter => simp [toJson, tagged, filter.exact_toJson]
  | anyOf children => simpa [toJson, tagged] using exact_toJsons children
  | allOf children => simpa [toJson, tagged] using exact_toJsons children

theorem exact_toJsons (filters : List ScanFilter) : ∀ item ∈ toJsons filters, item.Exact := by
  cases filters with
  | nil => simp [toJsons]
  | cons filter rest =>
      rw [toJsons, List.forall_mem_cons]
      exact ⟨exact_toJson filter, exact_toJsons rest⟩

end

/-- A filter nests one level more deeply than its arguments. -/
theorem nesting_tagged (type : String) (args : Json) :
    nesting (tagged type args) = argsNesting (some type) args + 1 := by
  simp [tagged, nesting, membersNesting, Json.choiceName?, Json.depth]

mutual

theorem nesting_toJson (filter : ScanFilter) : nesting filter.toJson = filter.levels := by
  cases filter with
  | firstKeyOnly => rfl
  | column filter =>
      rw [toJson, nesting_tagged]
      simp [CellFilter.toJson, argsNesting, argsFields, fieldsDepth, CellFilter.fields,
        Comparison.toJson, Json.depth, levels]
  | rowKey filter =>
      rw [toJson, nesting_tagged]
      simp [KeyFilter.toJson, argsNesting, argsFields, fieldsDepth, KeyFilter.fields,
        Comparison.toJson, Json.depth, levels]
  | anyOf children =>
      rw [toJson, nesting_tagged, argsNesting, itemsNesting_toJsons children, levels]
  | allOf children =>
      rw [toJson, nesting_tagged, argsNesting, itemsNesting_toJsons children, levels]

theorem itemsNesting_toJsons (filters : List ScanFilter) :
    itemsNesting (toJsons filters) = levelsOfAll filters := by
  cases filters with
  | nil => rfl
  | cons filter rest =>
      rw [toJsons, itemsNesting, nesting_toJson filter, itemsNesting_toJsons rest, levelsOfAll]

end

end ScanFilter

/-! ### Requests -/

namespace ScanRequest

/-- How deeply the JSON form of a request nests as far as its filter goes. -/
def levels (request : ScanRequest) : Nat :=
  (request.filter.map ScanFilter.levels).getD 0 + 1

theorem ofJson?_toJson (request : ScanRequest) : ofJson? request.toJson = some request := by
  have hcolumns : Json.list? CellAddress.ofJson?
      (.array (request.columns.map CellAddress.toJson)) = some request.columns :=
    Json.list?_array_map fun address _ => address.ofJson?_toJson
  have hnull : ∀ filter : ScanFilter, filter.toJson ≠ .null := by
    intro filter
    cases filter <;> simp [ScanFilter.toJson, ScanFilter.tagged]
  have hfilter : Json.optional? ScanFilter.ofJson?
      (.optional ScanFilter.toJson request.filter) = some request.filter :=
    Json.optional?_optional (fun filter _ => filter.readJson?_toJson false) hnull
  have hcaching := Json.uint32?_toNat request.caching
  rw [ofJson?, toJson, Json.record?_object (by rfl) (by decide)]
  obtain ⟨read, hread⟩ : ∃ read, Json.uint32? = read := ⟨_, rfl⟩
  rw [hread] at hcaching ⊢
  simp [required, nullable, find?, hcolumns, hfilter, hcaching, KeyRange.ofJson?_toJson]

theorem exact_toJson (request : ScanRequest) : request.toJson.Exact := by
  have hcaching := Json.exact_natCast (Nat.lt_trans request.caching.toNat_lt (by decide))
  simp [toJson, CellAddress.exact_toJson, ScanFilter.exact_toJson, KeyRange.exact_toJson, hcaching]

theorem nesting_toJson (request : ScanRequest) : nesting request.toJson = request.levels := by
  cases hfilter : request.filter with
  | none => simp [toJson, nesting, levels, hfilter, Json.optional, ScanFilter.nesting]
  | some filter =>
      simp [toJson, nesting, levels, hfilter, Json.optional, ScanFilter.nesting_toJson]

/-- A request gets through as text if it nests no more deeply than is allowed, and is refused if it
does. -/
theorem ofText?_render (request : ScanRequest) :
    ofText? request.toJson.render =
      if request.levels ≤ Json.nestingLimit then some request else none := by
  rw [ofText?, Json.parse?_render request.exact_toJson]
  simp only [Option.bind_eq_bind, Option.bind_some, nesting_toJson, ofJson?_toJson]

end ScanRequest

end KeyScan
