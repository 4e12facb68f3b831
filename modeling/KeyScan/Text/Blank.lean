/-!
Blank characters (the Unicode property White_Space) and trimming them from the ends of a text.
-/

namespace KeyScan.Text

/-- White_Space: the ASCII blanks and line ends, NEL, and the Unicode spaces and separators. -/
def isBlank (c : Char) : Bool :=
  let n := c.toNat
  (9 ≤ n && n ≤ 13) || n == 0x20 || n == 0x85 || n == 0xA0 || n == 0x1680 ||
    (0x2000 ≤ n && n ≤ 0x200A) || n == 0x2028 || n == 0x2029 || n == 0x202F || n == 0x205F ||
    n == 0x3000

/-- The characters without the blanks at either end. -/
def trimChars (cs : List Char) : List Char :=
  ((cs.dropWhile isBlank).reverse.dropWhile isBlank).reverse

def trim (text : String) : String :=
  String.ofList (trimChars text.toList)

/-- Blank characters only, or nothing. -/
def isAllBlank (text : String) : Bool :=
  text.toList.all isBlank

end KeyScan.Text
