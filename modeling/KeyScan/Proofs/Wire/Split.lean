import KeyScan.Proofs.Json.Record
import KeyScan.Proofs.Scalar.Conversion
import KeyScan.Proofs.Wire.Table
import KeyScan.Wire.Split

/-! # Splits in JSON

Splits are read back from their JSON form, whatever their keys, bounds, hints and units, if no
condition has a double for its value. -/

namespace KeyScan

open Json.Record

theorem KeyRange.ofJson?_toJson (range : KeyRange) : ofJson? range.toJson = some range := by
  have hend : ∀ key : Option Key,
      Json.optional? Json.bytes? (.optional Json.bytes key) = some key := fun key =>
    Json.optional?_optional (fun key _ => Json.bytes?_bytes key) (by simp [Json.bytes])
  rw [ofJson?, toJson, Json.record?_object (by rfl) (by decide)]
  simp [nullable, find?, hend]

theorem KeyRange.exact_toJson (range : KeyRange) : range.toJson.Exact := by
  simp [toJson]

theorem HostAddress.ofJson?_toJson (address : HostAddress) :
    ofJson? address.toJson = some address := by
  have hport := Json.uint16?_toNat address.port
  rw [ofJson?, toJson, Json.record?_object (by rfl) (by decide)]
  -- The reader stays closed: the limit in it is too large to be taken apart.
  obtain ⟨read, hread⟩ : ∃ read, Json.uint16? = read := ⟨_, rfl⟩
  rw [hread] at hport ⊢
  simp [required, find?, Json.text?, hport]

theorem HostAddress.exact_toJson (address : HostAddress) : address.toJson.Exact := by
  have hport := Json.exact_natCast (Nat.lt_trans address.port.toNat_lt (by decide))
  simp [toJson, hport]

theorem Region.ofJson?_toJson (region : Region) : ofJson? region.toJson = some region := by
  rw [ofJson?, toJson, Json.record?_object (by rfl) (by decide)]
  simp [required, defaulted, find?, Json.text?, Json.bool?, Json.bytes?_bytes]

theorem Region.exact_toJson (region : Region) : region.toJson.Exact := by
  simp [toJson]

theorem Operator.ofJson?_toJson (operator : Operator) : ofJson? operator.toJson = some operator := by
  cases operator <;> rfl

namespace Scalar

/-- The value is a number of floating point. -/
def isDouble : Scalar → Bool
  | double _ => true
  | _ => false

theorem tagged?_toJson (value : Scalar) :
    value.toJson.tagged? false kinds "type" "value" =
      some ⟨value.parts.1, some value.parts.2, false⟩ := by
  rw [toJson]
  simp [Json.tagged?, Json.choiceName?, Json.membersAreStrict]

theorem ofJson?_toJson {value : Scalar} (h : value.isDouble = false) :
    ofJson? value.toJson = some value := by
  rw [ofJson?, tagged?_toJson]
  cases value with
  | varchar value => rfl
  | integer value =>
      change (int32? value.toInt).map integer = _
      rw [int32?_toInt, Option.map_some]
  | bigint value =>
      change (int64? value.toInt).map bigint = _
      rw [int64?_toInt, Option.map_some]
  | double value => simp [isDouble] at h
  | boolean value => rfl
  | timestamp value =>
      change (int64? value.toInt).map timestamp = _
      rw [int64?_toInt, Option.map_some]

theorem exact_int64 (n : Int64) : (Json.int n.toInt).Exact := by
  have hmax : Int64.maxValue.toInt < UInt64.size := by decide
  exact .int n.minValue_le_toInt (Int.lt_of_le_of_lt n.toInt_le hmax)

theorem exact_int32 (n : Int32) : (Json.int n.toInt).Exact := by
  have hmin : Int64.minValue.toInt ≤ Int32.minValue.toInt := by decide
  have hmax : Int32.maxValue.toInt < UInt64.size := by decide
  exact .int (Int.le_trans hmin n.minValue_le_toInt) (Int.lt_of_le_of_lt n.toInt_le hmax)

theorem exact_toJson {value : Scalar} (h : value.isDouble = false) : value.toJson.Exact := by
  rw [toJson]
  cases value with
  | varchar value => simp [parts]
  | integer value => simp [parts, exact_int32]
  | bigint value => simp [parts, exact_int64]
  | double value => simp [isDouble] at h
  | boolean value => simp [parts]
  | timestamp value => simp [parts, exact_int64]

end Scalar

theorem Condition.ofJson?_toJson {c : Condition} (h : c.value.isDouble = false) :
    ofJson? c.toJson = some c := by
  rw [ofJson?, toJson, Json.record?_object (by rfl) (by decide)]
  simp [required, find?, Json.text?, Operator.ofJson?_toJson, Scalar.ofJson?_toJson h,
    ColumnType.ofJson?_toJson]

theorem Condition.exact_toJson {c : Condition} (h : c.value.isDouble = false) :
    c.toJson.Exact := by
  simp [toJson, Operator.toJson, ColumnType.toJson, Scalar.exact_toJson h]

namespace ScanUnit

/-- Beside its kind a unit is the record of its fields. -/
theorem ofJson?_object {kind : String} {fields : List (String × Json)}
    (hfields : ∀ m ∈ fields, m.1 ≠ "kind" ∧ m.2.Exact) :
    ofJson? (.object (("kind", .text kind) :: fields)) = ofFields? (.object fields) kind := by
  have hkind : fields.filter (fun m => m.1 == "kind") = [] := by
    rw [List.filter_eq_nil_iff]
    intro m hm
    simpa using (hfields m hm).1
  have hothers : fields.filter (fun m => m.1 != "kind") = fields := by
    rw [List.filter_eq_self]
    intro m hm
    simpa using (hfields m hm).1
  have hplain : Json.membersArePlain fields = true :=
    Json.membersArePlain_iff.mpr fun m hm => (hfields m hm).2.isPlain
  have hvariant : Json.variant? "kind" (.object (("kind", .text kind) :: fields)) =
      some (kind, .object fields) := by
    simp [Json.variant?, hkind, hothers, hplain]
  rw [ofJson?, hvariant]
  rfl

theorem exact_toJson (unit : ScanUnit) : unit.toJson.Exact := by
  cases unit with
  | batchGet keys => simp [toJson]
  | keyRange range => simp [toJson, range.exact_toJson]
  | regionLocal index region snapshot =>
      simp [toJson, region.exact_toJson, Json.exact_natCast index.toNat_lt]

theorem ofJson?_toJson (unit : ScanUnit) : ofJson? unit.toJson = some unit := by
  cases unit with
  | batchGet keys =>
      have hkeys : Json.list? Json.bytes? (.array (keys.map Json.bytes)) = some keys :=
        Json.list?_array_map fun key _ => Json.bytes?_bytes key
      rw [toJson, ofJson?_object (by simp), ofFields?, Json.record?_object (by rfl) (by decide)]
      simp [required, find?, hkeys]
  | keyRange range =>
      rw [toJson, ofJson?_object (by simp [range.exact_toJson]), ofFields?,
        Json.record?_object (by rfl) (by decide)]
      simp [required, find?, KeyRange.ofJson?_toJson]
  | regionLocal index region snapshot =>
      have hindex := Json.uint64?_toNat index
      rw [toJson, ofJson?_object
        (by simp [region.exact_toJson, Json.exact_natCast index.toNat_lt]), ofFields?,
        Json.record?_object (by rfl) (by decide)]
      obtain ⟨read, hread⟩ : ∃ read, Json.uint64? = read := ⟨_, rfl⟩
      rw [hread] at hindex ⊢
      simp [required, find?, Json.text?, hindex, Region.ofJson?_toJson]

theorem depth_toJson_le (unit : ScanUnit) : unit.toJson.depth ≤ 3 := by
  cases unit with
  | batchGet keys =>
      have hkeys : Json.itemsDepth (keys.map Json.bytes) ≤ 1 := Json.itemsDepth_le (by simp)
      simp only [toJson, Json.depth, Json.membersDepth]
      omega
  | keyRange range =>
      have hend : ∀ key : Option Key, (Json.optional Json.bytes key).depth ≤ 1 := by
        intro key
        cases key <;> simp [Json.optional, Json.depth]
      have hstart := hend range.start
      have hstop := hend range.stop
      simp only [toJson, KeyRange.toJson, Json.depth, Json.membersDepth]
      omega
  | regionLocal index region snapshot =>
      simp [toJson, Region.toJson, Json.depth, Json.membersDepth]

end ScanUnit

theorem Split.ofJson?_toJson {split : Split}
    (h : ∀ c ∈ split.conditions, c.value.isDouble = false) :
    ofJson? split.toJson = some split := by
  have hhosts : Json.list? HostAddress.ofJson? (.array (split.hostHints.map HostAddress.toJson)) =
      some split.hostHints := Json.list?_array_map fun address _ => address.ofJson?_toJson
  have hconditions : Json.list? Condition.ofJson?
      (.array (split.conditions.map Condition.toJson)) = some split.conditions :=
    Json.list?_array_map fun c hc => Condition.ofJson?_toJson (h c hc)
  rw [ofJson?, toJson, Json.record?_object (by rfl) (by decide)]
  simp [required, defaulted, find?, Json.text?, hhosts, hconditions, ScanUnit.ofJson?_toJson]

/-- The text of a split nests far less deeply than is allowed. -/
theorem Split.nesting_toJson_le (split : Split) : nesting split.toJson ≤ 4 := by
  have hnesting : nesting split.toJson = split.unit.toJson.depth + 1 := by simp [toJson, nesting]
  have hunit := split.unit.depth_toJson_le
  omega

theorem Split.exact_toJson {split : Split}
    (h : ∀ c ∈ split.conditions, c.value.isDouble = false) : split.toJson.Exact := by
  have hconditions : ∀ c ∈ split.conditions, c.toJson.Exact :=
    fun c hc => Condition.exact_toJson (h c hc)
  simpa [toJson, HostAddress.exact_toJson, ScanUnit.exact_toJson] using hconditions

end KeyScan
