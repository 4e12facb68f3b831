import KeyScan.Config.Path
import KeyScan.Json.Parser
import KeyScan.Text.Pieces

/-!
Settings: configuration values as sources give them, before they are read as a configuration. A
later source is laid over an earlier one: groups merge, anything else replaces what was there.
-/

namespace KeyScan

/-- A value of a configuration source. Groups are the sections of a configuration. -/
inductive Setting where
  | null
  | bool (value : Bool)
  | int (value : Int)
  | float (value : Double)
  | text (value : String)
  | list (items : List Setting)
  | group (members : List (String × Setting))
  deriving Repr, Inhabited

/-- The members of a group: settings by name. Names of settings that have been laid are in lower
case. -/
abbrev Settings := List (String × Setting)

namespace Setting

def member? (members : Settings) (name : String) : Option Setting :=
  (List.find? (fun m => m.1 == name) members).map (·.2)

def setMember (members : Settings) (name : String) (value : Setting) : Settings :=
  (name, value) :: members.filter fun m => m.1 != name

/-- The members of a group; what is no group has none. -/
def membersOf : Option Setting → Settings
  | some (group members) => members
  | _ => []

/-- The items of a list; what is no list has none. -/
def itemsOf : Option Setting → List Setting
  | some (list items) => items
  | _ => []

mutual

/-- A value laid over what was there. A group changes its members alone, so an empty one is seen
only where nothing was. -/
def lay (base : Option Setting) : Setting → Setting
  | group [] => base.getD (group [])
  | group ((name, value) :: rest) =>
      let name := Text.foldCase name
      let under := membersOf base
      group (layMembers (setMember under name (lay (member? under name) value)) rest)
  | value => value

/-- Members laid over those of a group one by one. -/
def layMembers (base : Settings) : Settings → Settings
  | [] => base
  | (name, value) :: rest =>
      let name := Text.foldCase name
      layMembers (setMember base name (lay (member? base name) value)) rest

end

/-- A list with nulls put at the end that an index lies past, and the place that the index then
means. -/
def reach (items : List Setting) (index : Int) : List Setting × Nat :=
  if index < 0 then
    (List.replicate (index.natAbs - items.length) null ++ items, items.length - index.natAbs)
  else (items ++ List.replicate (index.toNat + 1 - items.length) null, index.toNat)

/-- A value laid at the end of a path. What is no group on the way gives place to one where the path
names a member, and what is no list to one where it gives an index. The last item on a path is
replaced as a whole. -/
def layAt (value : Setting) : Path → Option Setting → Setting
  | [], base => lay base value
  | .member name :: rest, base =>
      let name := Text.foldCase name
      let under := membersOf base
      group (setMember under name (layAt value rest (member? under name)))
  | .item index :: rest, base =>
      let (items, place) := reach (itemsOf base) index
      list (items.set place (if rest.isEmpty then value else layAt value rest items[place]?))

/-- A source laid over the settings so far, its outermost names as paths. -/
def layAll (base source : Settings) : Settings :=
  source.foldl (fun base m => membersOf (some (layAt m.2 (Path.ofName m.1) (some (group base)))))
    base

/-! ### JSON sources -/

mutual

/-- A JSON value as a setting; integers past 63 bits are floats. -/
def ofJson : Json → Setting
  | .null => null
  | .bool value => bool value
  | .int n => if n ≤ Int64.maxValue.toInt then int n else float (Double.ofInt n)
  | .real x => float x
  | .text value => text value
  | .brokenText .. => null
  | .array items => list (ofItems items)
  | .object members => group (ofMembers members)
  | .brokenObject _ => null

def ofItems : List Json → List Setting
  | [] => []
  | item :: rest => ofJson item :: ofItems rest

def ofMembers : List (String × Json) → Settings
  | [] => []
  | (name, value) :: rest => (name, ofJson value) :: ofMembers rest

end

/-- The members of a configuration file, the last of each name. -/
def ofFile? (source : String) : Option Settings := do
  match ← Json.parse? source with
  | .object members =>
      let value := Json.object members
      if value.isPlain && value.depth ≤ Json.nestingLimit then
        return ofMembers (Json.membersByName members)
      else none
  | _ => none

end Setting

end KeyScan
