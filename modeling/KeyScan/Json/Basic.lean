import KeyScan.Double.Basic

/-!
JSON values. Objects keep their members as written, repeated names included; what to do with those
is up to the reader of the object.
-/

namespace KeyScan

/-- A JSON value. An `int` is a number written without fraction or exponent that fits 64 bits,
signed or unsigned; every other number is a `real`, infinite when it lies past the doubles.
`brokenText` is a string that is no text: it has an escaped half of a surrogate pair on its own, or
it is not even `strict`, as a control character stands in it as it is. Its bytes have the half
encoded like any character. `brokenObject` has the values of an object with a name that is no
text. -/
inductive Json where
  | null
  | bool (value : Bool)
  | int (value : Int)
  | real (value : Double)
  | text (value : String)
  | brokenText (bytes : List UInt8) (strict : Bool)
  | array (items : List Json)
  | object (members : List (String × Json))
  | brokenObject (values : List Json)
  deriving Repr, Inhabited

namespace Json

/-- An array of texts. -/
def texts (values : List String) : Json :=
  array (values.map text)

/-- Bytes as the array of their numbers. -/
def bytes (key : List UInt8) : Json :=
  array (key.map fun byte => int byte.toNat)

/-- A value that may be absent, which is written as null. -/
def optional {α : Type} (encode : α → Json) : Option α → Json
  | none => null
  | some value => encode value

mutual

/-- How deeply arrays and objects stand inside each other; a value that is neither has depth 0. -/
def depth : Json → Nat
  | array items => itemsDepth items + 1
  | object members => membersDepth members + 1
  | _ => 0

def itemsDepth : List Json → Nat
  | [] => 0
  | item :: rest => max item.depth (itemsDepth rest)

def membersDepth : List (String × Json) → Nat
  | [] => 0
  | (_, value) :: rest => max value.depth (membersDepth rest)

end

/-- How deeply JSON text may nest where it is looked at. -/
def nestingLimit : Nat := 127

mutual

/-- Every string and every name in it is a text and every number a finite one. -/
def isPlain : Json → Bool
  | real value => value.isFinite
  | brokenText .. => false
  | array items => itemsArePlain items
  | object members => membersArePlain members
  | brokenObject _ => false
  | _ => true

def itemsArePlain : List Json → Bool
  | [] => true
  | item :: rest => item.isPlain && itemsArePlain rest

def membersArePlain : List (String × Json) → Bool
  | [] => true
  | (_, value) :: rest => value.isPlain && membersArePlain rest

end

mutual

/-- May stand where it is passed over: no control character stands in a string as it is. -/
def isStrict : Json → Bool
  | brokenText _ strict => strict
  | array items => itemsAreStrict items
  | object members => membersAreStrict members
  | brokenObject values => itemsAreStrict values
  | _ => true

def itemsAreStrict : List Json → Bool
  | [] => true
  | item :: rest => item.isStrict && itemsAreStrict rest

def membersAreStrict : List (String × Json) → Bool
  | [] => true
  | (_, value) :: rest => value.isStrict && membersAreStrict rest

end

/-- Puts a member among those after it, which stand in the order of their names. It gives way to one
of its own name. -/
def placeMember (name : String) (value : Json) : List (String × Json) → List (String × Json)
  | [] => [(name, value)]
  | later :: rest =>
      if name < later.1 then (name, value) :: later :: rest
      else if name = later.1 then later :: rest
      else later :: placeMember name value rest

mutual

/-- The value with the members of every object in the order of their names, the last of each name
only. -/
def byName : Json → Json
  | array items => array (itemsByName items)
  | object members => object (membersByName members)
  | value => value

def itemsByName : List Json → List Json
  | [] => []
  | item :: rest => item.byName :: itemsByName rest

def membersByName : List (String × Json) → List (String × Json)
  | [] => []
  | (name, value) :: rest => placeMember name value.byName (membersByName rest)

end

end Json

end KeyScan
