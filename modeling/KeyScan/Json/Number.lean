import KeyScan.Double.Basic
import KeyScan.Json.Basic

/-!
Numbers of JSON text. A number that is not a 64-bit integer becomes a double in two roundings: the
leading digits that fit 64 bits are rounded to a double, and that is scaled by the power of ten.
-/

namespace KeyScan.Json

/-- Digits taken up while the number they make fits 64 bits, and the digits left over. -/
def takeDigits : Nat → List Char → Nat × List Char
  | acc, [] => (acc, [])
  | acc, c :: cs =>
      let next := 10 * acc + (c.toNat - 48)
      if next < UInt64.size then takeDigits next cs else (acc, c :: cs)

def powerOfTen (n : Nat) : Double :=
  Double.ofRatio false (Nat.pow 10 n) 1

/-- Times a power of ten that is a double, or divided by one. Smaller powers are divided out in
steps of `10 ^ 308`; `none` is a number past the doubles. -/
def scale (x : Double) (exp : Int) : Option Double :=
  if 0 ≤ exp then
    if x.isZero then some x
    else if 308 < exp then none
    else
      let (num, den) := x.ratio
      let (tenNum, tenDen) := (powerOfTen exp.toNat).ratio
      let scaled := Double.ofRatio false (num * tenNum) (den * tenDen)
      if scaled.isInfinite then none else some scaled
  else
    let (num, den) := x.ratio
    let (tenNum, tenDen) := (powerOfTen (min 308 (-exp).toNat)).ratio
    let scaled := Double.ofRatio false (num * tenDen) (den * tenNum)
    if h : -308 ≤ exp then some scaled
    else if x.isZero then some x
    else scale scaled (exp + 308)
termination_by (-exp).toNat
decreasing_by omega

/-- The parts of a number as written. -/
structure Decimal where
  negative : Bool
  whole : List Char
  fraction : List Char
  exponent : Int

/-- The double of a number, infinite past the range. An exponent past 32 bits decides by its sign
alone. -/
def Decimal.toDouble (d : Decimal) : Double :=
  let (head, wholeRest) := takeDigits 0 d.whole
  let (significand, fractionRest) := takeDigits head d.fraction
  let shift := (wholeRest.length : Int) - (d.fraction.length - fractionRest.length : Nat)
  let size :=
    if Int32.maxValue.toInt < d.exponent.natAbs then
      if significand = 0 || d.exponent < 0 then some (Double.zero false) else none
    else scale (Double.ofInt significand) (shift + d.exponent)
  match size with
  | none => Double.infinity d.negative
  | some x => Double.ofMagnitude d.negative x.magnitude

/-- An integer where the number is one in 64 bits; minus zero is a double. -/
def ofInteger (negative : Bool) (digits : List Char) : Json :=
  let n := (digits.foldl (fun acc c => 10 * acc + (c.toNat - 48)) 0 : Nat)
  if !negative && n < UInt64.size then int n
  else if negative && 0 < n && n ≤ Int64.minValue.toInt.natAbs then int (-n)
  else real (Decimal.toDouble ⟨negative, digits, [], 0⟩)

end KeyScan.Json
