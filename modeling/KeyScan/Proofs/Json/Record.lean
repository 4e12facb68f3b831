import KeyScan.Json.Record
import KeyScan.Proofs.Json.Text

/-! # Records and simple values in JSON

What is read back of a field that was written, and that what is written is plain. -/

namespace KeyScan.Json

/-! ### Simple values -/

theorem nat?_natCast {size n : Nat} (h : n < size) : nat? size (int n) = some n := by
  simp [nat?, h]

theorem uint8?_toNat (n : UInt8) : uint8? (int n.toNat) = some n := by
  simp [uint8?, nat?_natCast (show n.toNat < UInt8.size from n.toNat_lt)]

theorem uint16?_toNat (n : UInt16) : uint16? (int n.toNat) = some n := by
  simp [uint16?, nat?_natCast (show n.toNat < UInt16.size from n.toNat_lt)]

theorem uint32?_toNat (n : UInt32) : uint32? (int n.toNat) = some n := by
  simp [uint32?, nat?_natCast (show n.toNat < UInt32.size from n.toNat_lt)]

theorem uint64?_toNat (n : UInt64) : uint64? (int n.toNat) = some n := by
  simp [uint64?, nat?_natCast (show n.toNat < UInt64.size from n.toNat_lt)]

theorem list?_array_map {α : Type} {read : Json → Option α} {encode : α → Json}
    {xs : List α} (h : ∀ x ∈ xs, read (encode x) = some x) :
    list? read (.array (xs.map encode)) = some xs := by
  rw [list?, mapM_eq_some_iff, List.map_map]
  exact List.map_congr_left h

theorem bytes?_bytes (key : List UInt8) : bytes? (bytes key) = some key :=
  list?_array_map fun byte _ => uint8?_toNat byte

/-- A value is told from null, if it is not written as null. -/
theorem optional?_optional {α : Type} {read : Json → Option α} {encode : α → Json}
    {value : Option α} (hread : ∀ x ∈ value, read (encode x) = some x)
    (hnull : ∀ x, encode x ≠ null) : optional? read (optional encode value) = some value := by
  cases value with
  | none => rfl
  | some x =>
      have hsome : optional? read (encode x) = (read (encode x)).map some := by
        cases hjson : encode x with
        | null => exact absurd hjson (hnull x)
        | _ => rfl
      rw [optional, hsome, hread x rfl, Option.map_some]

/-! ### Records -/

/-- An object that holds the fields of a record, each once, is that record. -/
theorem record?_object {fields : List String} {members : List (String × Json)}
    (hfields : members.map (·.1) = fields) (hnodup : fields.Nodup) :
    record? fields (.object members) = some ⟨members, false⟩ := by
  have hknown : ∀ m ∈ members, fields.contains m.1 := fun m hm =>
    List.contains_iff_mem.2 (hfields ▸ List.mem_map_of_mem hm)
  have hpartition : members.partition (fun m => fields.contains m.1) = (members, []) := by
    rw [List.partition_eq_filter_filter, List.filter_eq_self.2 hknown,
      List.filter_eq_nil_iff.2 fun m hm => by simpa using hknown m hm]
  simp only [record?, hpartition, hfields, hnodup, membersAreStrict, decide_true, Bool.and_self,
    if_true]

/-! ### Exact values -/

@[simp]
theorem exact_text (value : String) : Exact (text value) := .text value

@[simp]
theorem exact_bool (value : Bool) : Exact (bool value) := .bool value

theorem exact_natCast {n : Nat} (h : n < UInt64.size) : Exact (int n) := by
  have hmin : Int64.minValue.toInt = -9223372036854775808 := by decide
  exact .int (by omega) (by omega)

@[simp]
theorem exact_array_iff {items : List Json} :
    Exact (array items) ↔ ∀ item ∈ items, Exact item := by
  constructor
  · rintro ⟨⟩
    assumption
  · exact .array

@[simp]
theorem exact_object_iff {members : List (String × Json)} :
    Exact (object members) ↔ ∀ m ∈ members, Exact m.2 := by
  constructor
  · rintro ⟨⟩
    assumption
  · exact .object

@[simp]
theorem exact_bytes (key : List UInt8) : Exact (bytes key) := by
  rw [bytes, exact_array_iff, List.forall_mem_map]
  intro byte _
  exact exact_natCast (Nat.lt_trans byte.toNat_lt (by decide))

@[simp]
theorem exact_optional_iff {α : Type} {encode : α → Json} {value : Option α} :
    Exact (optional encode value) ↔ ∀ x ∈ value, Exact (encode x) := by
  cases value with
  | none => simp [optional, Exact.null]
  | some x => simp [optional]

theorem itemsArePlain_iff {items : List Json} :
    itemsArePlain items = true ↔ ∀ item ∈ items, item.isPlain = true := by
  induction items with
  | nil => simp [itemsArePlain]
  | cons item rest ih => simp [itemsArePlain, ih]

theorem membersArePlain_iff {members : List (String × Json)} :
    membersArePlain members = true ↔ ∀ m ∈ members, m.2.isPlain = true := by
  induction members with
  | nil => simp [membersArePlain]
  | cons m rest ih => simp [membersArePlain, ih]

theorem Exact.isPlain {value : Json} (h : Exact value) : value.isPlain = true := by
  induction h with
  | array _ ih => exact itemsArePlain_iff.mpr ih
  | object _ ih => exact membersArePlain_iff.mpr ih
  | _ => rfl

/-! ### Depth -/

theorem itemsDepth_le {items : List Json} {n : Nat} (h : ∀ item ∈ items, item.depth ≤ n) :
    itemsDepth items ≤ n := by
  induction items with
  | nil => exact Nat.zero_le n
  | cons item rest ih =>
      exact Nat.max_le.mpr ⟨h item List.mem_cons_self,
        ih fun other hother => h other (List.mem_cons_of_mem item hother)⟩

@[simp]
theorem depth_bytes (key : List UInt8) : (bytes key).depth = 1 := by
  have hitems : itemsDepth (key.map fun byte => int byte.toNat) = 0 := by
    apply Nat.le_zero.mp
    apply itemsDepth_le
    rw [List.forall_mem_map]
    intro byte _
    exact Nat.le_refl 0
  rw [bytes, depth, hitems]

end KeyScan.Json
