import KeyScan.Json.Record

/-!
Values that name their own kind: a kind beside one content, or a kind among the fields of a record.
What stands before the kind is kept until the kind is known, and has to be plain for that.
-/

namespace KeyScan.Json

/-- A kind and the content that goes with it, which may have been kept. -/
structure Tagged where
  kind : String
  content : Option Json
  kept : Bool

/-- The kind at the head of an array: its name, or its number among the kinds in an array that has
been kept. -/
def headKind? (kept : Bool) (kinds : List String) : Json → Option String
  | text name => some name
  | int n => if kept && 0 ≤ n then kinds[n.toNat]? else none
  | _ => none

/-- An object with a kind and at most one content, or the array of the two. -/
def tagged? (kept : Bool) (kinds : List String) (kindField contentField : String) :
    Json → Option Tagged
  | object members =>
      let (parts, others) := members.partition fun m => m.1 == kindField || m.1 == contentField
      if membersAreStrict others then
        match parts with
        | [(name, kind)] =>
            if name = kindField then (kind.choiceName? kept).map (⟨·, none, kept⟩) else none
        | [(name, first), (other, second)] =>
            if name = other then none
            else if name = kindField then (first.choiceName? kept).map (⟨·, some second, kept⟩)
            else if first.isPlain then (second.choiceName? kept).map (⟨·, some first, true⟩)
            else none
        | _ => none
      else none
  | array [kind, content] => (headKind? kept kinds kind).map (⟨·, some content, kept⟩)
  | _ => none

/-- A record with its kind among the fields, or first in an array. The fields are kept until the
kind is known, so everything in them has to be plain. -/
def variant? (kindField : String) : Json → Option (String × Json)
  | object members =>
      let fields := members.filter fun m => m.1 != kindField
      match members.filter fun m => m.1 == kindField with
      | [(_, text kind)] => if membersArePlain fields then some (kind, object fields) else none
      | _ => none
  | array (text kind :: fields) => if itemsArePlain fields then some (kind, array fields) else none
  | _ => none

end KeyScan.Json
