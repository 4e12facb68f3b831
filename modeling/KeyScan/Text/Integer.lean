/-!
Whole numbers in decimal: written with no more than a minus sign and digits; read from an optional
sign and at least one ASCII digit, nothing else.
-/

namespace KeyScan.Text

/-- A whole number as its digits, after a minus sign if it is negative. -/
def integerChars (n : Int) : List Char :=
  if n < 0 then '-' :: Nat.toDigits 10 n.natAbs else Nat.toDigits 10 n.natAbs

def ofInteger (n : Int) : String :=
  String.ofList (integerChars n)

/-- The value of the digits read so far, continued by `cs`; `none` at a character that is no
digit. -/
def digitsValue : Nat → List Char → Option Nat
  | acc, [] => some acc
  | acc, c :: cs => if c.isDigit then digitsValue (10 * acc + (c.toNat - 48)) cs else none

/-- One or more digits. -/
def natural? : List Char → Option Nat
  | [] => none
  | cs => digitsValue 0 cs

/-- Digits after an optional sign. -/
def integer? : List Char → Option Int
  | '-' :: cs => (natural? cs).map fun n => -(n : Int)
  | '+' :: cs => (natural? cs).map Int.ofNat
  | cs => (natural? cs).map Int.ofNat

/-- Digits after an optional plus sign. -/
def unsigned? : List Char → Option Nat
  | '+' :: cs => natural? cs
  | cs => natural? cs

end KeyScan.Text
