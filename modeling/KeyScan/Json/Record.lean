import KeyScan.Json.Basic

/-!
Reading records, numbers, names and bytes from JSON. A record is an object with each known member at
most once, whatever else it holds, or the array of its fields in declared order.
-/

namespace KeyScan.Json

/-! ### Simple values -/

def bool? : Json → Option Bool
  | bool value => some value
  | _ => none

def text? : Json → Option String
  | text value => some value
  | _ => none

def int? : Json → Option Int
  | int n => some n
  | _ => none

/-- A natural number below `size`. -/
def nat? (size : Nat) : Json → Option Nat
  | int n => if 0 ≤ n && n < size then some n.toNat else none
  | _ => none

def uint8? (value : Json) : Option UInt8 :=
  (nat? UInt8.size value).map UInt8.ofNat

def uint16? (value : Json) : Option UInt16 :=
  (nat? UInt16.size value).map UInt16.ofNat

def uint32? (value : Json) : Option UInt32 :=
  (nat? UInt32.size value).map UInt32.ofNat

def uint64? (value : Json) : Option UInt64 :=
  (nat? UInt64.size value).map UInt64.ofNat

/-- A number of any kind that is no larger than the doubles. -/
def double? : Json → Option Double
  | int n => some (Double.ofInt n)
  | real x => if x.isFinite then some x else none
  | _ => none

/-- Bytes: a string stands for its UTF-8 bytes, an array lists them. -/
def bytes? : Json → Option (List UInt8)
  | text value => some value.toByteArray.data.toList
  | brokenText bytes _ => some bytes
  | array items => items.mapM uint8?
  | _ => none

def list? {α : Type} (read : Json → Option α) : Json → Option (List α)
  | array items => items.mapM read
  | _ => none

/-- A value that null leaves out. -/
def optional? {α : Type} (read : Json → Option α) : Json → Option (Option α)
  | null => some none
  | value => (read value).map some

/-- The name of a choice, alone or as the one member, null, of an object. Where the value has been
`kept` until its kind was known, the member may be an empty object too. -/
def choiceName? (kept : Bool) : Json → Option String
  | text name => some name
  | object [(name, null)] => some name
  | object [(name, object [])] => if kept then some name else none
  | _ => none

/-- A choice that is read as it comes. -/
def choice? {α : Type} (ofName : String → Option α) (value : Json) : Option α :=
  (value.choiceName? false).bind ofName

/-! ### Records -/

/-- The known fields of a record that are there. An array gives the first fields. -/
structure Record where
  members : List (String × Json)
  positional : Bool

/-- The known members of an object, each at most once, or the fields of an array from the first. -/
def record? (fields : List String) : Json → Option Record
  | object members =>
      let (known, others) := members.partition fun m => fields.contains m.1
      if (known.map (·.1)).Nodup && membersAreStrict others then some ⟨known, false⟩ else none
  | array items =>
      if items.length ≤ fields.length then some ⟨fields.zip items, true⟩ else none
  | _ => none

namespace Record

def find? (record : Record) (field : String) : Option Json :=
  (record.members.find? fun m => m.1 == field).map (·.2)

/-- A field that must be there. -/
def required {α : Type} (record : Record) (field : String) (read : Json → Option α) : Option α :=
  (record.find? field).bind read

/-- A field that takes a default when it is left out. -/
def defaulted {α : Type} (record : Record) (field : String) (default : α)
    (read : Json → Option α) : Option α :=
  match record.find? field with
  | none => some default
  | some value => read value

/-- A field that may be null, and that an object may leave out; an array lists it all the same. -/
def nullable {α : Type} (record : Record) (field : String) (read : Json → Option α) :
    Option (Option α) :=
  match record.find? field with
  | none => if record.positional then none else some none
  | some value => optional? read value

end Record

end KeyScan.Json
