import KeyScan.Text.GraphemeExtend

/-!
Text made safe to show on one line: quotes, backslashes and the common controls by a letter, other
unprintable characters by their code point in braces.
-/

namespace KeyScan.Text

/-- The code point in lower-case hexadecimal, as in `\u{1f600}`. -/
def codePointEscape (c : Char) : List Char :=
  ['\\', 'u', '\x7b'] ++ Nat.toDigits 16 c.toNat ++ ['\x7d']

/-- One character as shown. A mark is escaped only where no character stands before it to carry
it. -/
def escapeChar (first : Bool) (c : Char) : List Char :=
  if c = '\x00' then ['\\', '0']
  else if c = '\t' then ['\\', 't']
  else if c = '\r' then ['\\', 'r']
  else if c = '\n' then ['\\', 'n']
  else if c = '\'' || c = '"' || c = '\\' then ['\\', c]
  else if first && isGraphemeExtender c then codePointEscape c
  else if isPrintable c then [c]
  else codePointEscape c

def escapeChars : List Char → List Char
  | [] => []
  | c :: rest => escapeChar true c ++ rest.flatMap (escapeChar false)

def escape (text : String) : String :=
  String.ofList (escapeChars text.toList)

end KeyScan.Text
