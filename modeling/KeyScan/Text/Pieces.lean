/-!
Cutting a text at a character, and case.
-/

namespace KeyScan.Text

/-- The pieces between the occurrences of `separator`: one more than there are occurrences. -/
def pieces (separator : Char) (text : String) : List String :=
  (text.toList.splitOn separator).map String.ofList

/-- What stands before and after the first occurrence of `separator`, if there is one. -/
def cutAt (separator : Char) (cs : List Char) : Option (List Char × List Char) :=
  match cs.dropWhile (· ≠ separator) with
  | [] => none
  | _ :: after => some (cs.takeWhile (· ≠ separator), after)

/-- ASCII capitals in lower case; every other character as it is. -/
def lowercase (text : String) : String :=
  text.map Char.toLower

/-- Names that differ in case alone are one name. Besides the ASCII capitals, the Kelvin sign has an
ASCII letter for its lower case. -/
def foldCase (text : String) : String :=
  text.map fun c => if c = '\u212A' then 'k' else c.toLower

end KeyScan.Text
