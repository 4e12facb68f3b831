import KeyScan.Double.Basic
import KeyScan.Text.Integer

/-!
Doubles from decimal text, rounded once from the exact value.
-/

namespace KeyScan.Double

/-- The double nearest to `n * 10 ^ exp`. Numbers far outside the range of doubles are settled
without computing the power. -/
def ofDecimal (negative : Bool) (n : Nat) (exp : Int) : Double :=
  let point := (Nat.toDigits 10 n).length + exp
  if n = 0 || point < -330 then zero negative
  else if 310 < point then infinity negative
  else ofRatio negative (n * Nat.pow 10 exp.toNat) (Nat.pow 10 (-exp).toNat)

/-- An exponent mark, an optional sign and digits; nothing at all is the exponent zero. -/
def exponent? : List Char → Option Int
  | [] => some 0
  | c :: cs => if c = 'e' || c = 'E' then Text.integer? cs else none

/-- Digits with an optional point among or beside them, then an optional exponent. -/
def unsigned? (negative : Bool) (cs : List Char) : Option Double := do
  let whole := cs.takeWhile Char.isDigit
  let (fraction, rest) :=
    match cs.dropWhile Char.isDigit with
    | '.' :: more => (more.takeWhile Char.isDigit, more.dropWhile Char.isDigit)
    | rest => ([], rest)
  let n ← Text.natural? (whole ++ fraction)
  let exp ← exponent? rest
  return ofDecimal negative n (exp - fraction.length)

/-- A number after its sign: a decimal, or a word for infinity or no number in any case. -/
def afterSign? (negative : Bool) (cs : List Char) : Option Double :=
  let word := String.ofList (cs.map Char.toLower)
  if word = "inf" || word = "infinity" then some (infinity negative)
  else if word = "nan" then some (nan negative)
  else unsigned? negative cs

def ofChars? : List Char → Option Double
  | '-' :: cs => afterSign? true cs
  | '+' :: cs => afterSign? false cs
  | cs => afterSign? false cs

/-- Reads a double from text with nothing around it. -/
def ofText? (text : String) : Option Double :=
  ofChars? text.toList

end KeyScan.Double
