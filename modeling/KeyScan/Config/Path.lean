import KeyScan.Text.Integer

/-!
Paths into settings, as a dotted name spells them: members of groups and places in lists, such as
`scan.caching` and `tables[0]`.
-/

namespace KeyScan

/-- One step down: to a member of a group, or to a place in a list. Negative places count back from
the end. -/
inductive PathStep where
  | member (name : String)
  | item (index : Int)
  deriving DecidableEq, Repr

/-- The steps from the outermost group down. -/
abbrev Path := List PathStep

namespace Path

/-- Names on a path have ASCII letters, digits, blanks, underscores and hyphens. -/
def isNameChar (c : Char) : Bool :=
  c.isAlphanum || c = ' ' || c = '_' || c = '-'

/-- The blanks that may stand around an index. -/
def isIndexBlank (c : Char) : Bool :=
  c = ' ' || c = '\t'

/-- An index of 64 bits: digits, after a minus sign if it is negative, between blanks. -/
def index? (cs : List Char) : Option Int :=
  let cs := ((cs.dropWhile isIndexBlank).reverse.dropWhile isIndexBlank).reverse
  let read :=
    match cs with
    | '-' :: digits => (Text.natural? digits).map fun n => -(n : Int)
    | digits => (Text.natural? digits).map Int.ofNat
  read.filter fun n => Int64.minValue.toInt ≤ n && n ≤ Int64.maxValue.toInt

/-- The steps that the characters spell: a point and a name, or an index in brackets. -/
def steps? : List Char → Option Path
  | [] => some []
  | '.' :: cs =>
      let name := cs.takeWhile isNameChar
      if name.isEmpty then none
      else (steps? (cs.dropWhile isNameChar)).map (.member (String.ofList name) :: ·)
  | '[' :: cs =>
      let inside := cs.takeWhile (· ≠ ']')
      if inside.length = cs.length then none
      else do
        let index ← index? inside
        return .item index :: (← steps? (cs.drop (inside.length + 1)))
  | _ => none
termination_by cs => cs.length
decreasing_by
  · have := (cs.dropWhile_suffix isNameChar).length_le
    simp only [List.length_cons]
    omega
  · simp only [List.length_drop, List.length_cons]
    omega

/-- The path that a name spells. A name that spells none is a step by itself. -/
def ofName (name : String) : Path :=
  (steps? ('.' :: name.toList)).getD [.member name]

end Path

end KeyScan
