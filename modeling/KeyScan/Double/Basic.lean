/-!
Double-precision numbers, kept by their IEEE 754 bits: what a bit pattern stands for, the double
nearest to a quotient of whole numbers (a tie goes to the even neighbour), and comparison.
-/

namespace KeyScan

/-- A binary64 number. Equality is equality of bits, so it tells `0.0` from `-0.0` and every NaN
from every other. -/
structure Double where
  bits : UInt64
  deriving DecidableEq, Repr

namespace Double

/-- How many doubles share a sign and an exponent: `2 ^ 52`. -/
def binade : Nat := 4503599627370496

def signBit : Nat := 2048 * binade

/-- The bits of positive infinity: the magnitudes of finite doubles are smaller, those of NaNs
larger. -/
def infinityBits : Nat := 2047 * binade

/-- The double of a sign and the bits below it. -/
def ofMagnitude (negative : Bool) (magnitude : Nat) : Double :=
  ⟨UInt64.ofNat (magnitude + if negative then signBit else 0)⟩

def isNegative (x : Double) : Bool :=
  signBit ≤ x.bits.toNat

/-- The bits below the sign. They order the doubles of one sign by size. -/
def magnitude (x : Double) : Nat :=
  x.bits.toNat % signBit

def isNaN (x : Double) : Bool :=
  infinityBits < x.magnitude

def isInfinite (x : Double) : Bool :=
  x.magnitude = infinityBits

def isFinite (x : Double) : Bool :=
  x.magnitude < infinityBits

def isZero (x : Double) : Bool :=
  x.magnitude = 0

def zero (negative : Bool) : Double := ofMagnitude negative 0

def one : Double := ofMagnitude false (1023 * binade)

def infinity (negative : Bool) : Double := ofMagnitude negative infinityBits

/-- The quiet NaN with no payload. -/
def nan (negative : Bool) : Double := ofMagnitude negative (infinityBits + binade / 2)

/-! ### The value of a finite double -/

/-- The whole number `m` of the size `m * 2 ^ exponent`. -/
def mantissa (x : Double) : Nat :=
  if x.magnitude < binade then x.magnitude else x.magnitude % binade + binade

def exponent (x : Double) : Int :=
  ((x.magnitude / binade - 1 : Nat) : Int) - 1074

/-- The size of a finite double as a quotient of whole numbers. -/
def ratio (x : Double) : Nat × Nat :=
  (x.mantissa * Nat.pow 2 x.exponent.toNat, Nat.pow 2 (-x.exponent).toNat)

/-! ### Rounding -/

/-- The whole number nearest to `num / den`, of two the even one. -/
def roundHalfEven (num den : Nat) : Nat :=
  let down := num / den
  let rest := num % den
  if 2 * rest < den then down
  else if den < 2 * rest then down + 1
  else down + down % 2

/-- The power of two that the last place of the double nearest to `num / den` is worth. -/
def lastPlace (num den : Nat) : Int :=
  let guess := (Nat.log2 num : Int) - Nat.log2 den - 53
  let place :=
    if den * Nat.pow 2 (guess + 53).toNat ≤ num * Nat.pow 2 (-(guess + 53)).toNat then guess + 1
    else guess
  max place (-1074)

/-- The double nearest to `num / den`; a quotient past the largest double by half a place or more
is infinite. -/
def ofRatio (negative : Bool) (num den : Nat) : Double :=
  if num = 0 then zero negative
  else
    let place := lastPlace num den
    let mantissa := roundHalfEven (num * Nat.pow 2 (-place).toNat) (den * Nat.pow 2 place.toNat)
    ofMagnitude negative (min infinityBits ((place + 1074).toNat * binade + mantissa))

/-- The double nearest to a whole number. -/
def ofInt (n : Int) : Double :=
  ofRatio (decide (n < 0)) n.natAbs 1

/-! ### Comparison -/

/-- A whole number that grows with the double; both zeros have zero. -/
def rank (x : Double) : Int :=
  if x.isNegative then -(x.magnitude : Int) else x.magnitude

/-- Equality of numbers: the zeros are equal, and a NaN equals nothing. -/
def numEq (x y : Double) : Bool :=
  !x.isNaN && !y.isNaN && x.rank == y.rank

/-- Order of numbers: a NaN is neither below nor above anything. -/
def numLt (x y : Double) : Bool :=
  !x.isNaN && !y.isNaN && x.rank < y.rank

/-! ### Whole numbers from doubles -/

/-- Toward zero into `0 ‥ 2^64 - 1`: what lies outside goes to the nearer end, a NaN to zero. -/
def toUInt64 (x : Double) : UInt64 :=
  if x.isNaN || x.isNegative then 0
  else if x.isInfinite then UInt64.ofNat (UInt64.size - 1)
  else
    let (num, den) := x.ratio
    UInt64.ofNat (min (num / den) (UInt64.size - 1))

/-- To the nearest whole number, a half away from zero, then as in `toUInt64`. -/
def roundToUInt64 (x : Double) : UInt64 :=
  if x.isNaN || x.isNegative then 0
  else if x.isInfinite then UInt64.ofNat (UInt64.size - 1)
  else
    let (num, den) := x.ratio
    UInt64.ofNat (min ((2 * num + den) / (2 * den)) (UInt64.size - 1))

end Double

end KeyScan
