import KeyScan.Double.Basic

/-!
Products and powers of doubles, each product rounded to the nearest double.
-/

namespace KeyScan.Double

/-- The rounded product. Infinity times zero is no number. -/
def mul (x y : Double) : Double :=
  let negative := x.isNegative != y.isNegative
  if x.isNaN then x
  else if y.isNaN then y
  else if x.isInfinite || y.isInfinite then
    if x.isZero || y.isZero then nan true else infinity negative
  else
    let (xNum, xDen) := x.ratio
    let (yNum, yDen) := y.ratio
    ofRatio negative (xNum * yNum) (xDen * yDen)

/-- The power by repeated squaring: `acc * x ^ n`, each product rounded. -/
def powFrom (acc x : Double) (n : Nat) : Double :=
  let acc := if n % 2 = 1 then mul acc x else acc
  if h : n / 2 = 0 then acc else powFrom acc (mul x x) (n / 2)
termination_by n
decreasing_by omega

def pow (x : Double) (n : Nat) : Double :=
  powFrom one x n

/-- The smaller number; of a number and a NaN, the number. -/
def min (x y : Double) : Double :=
  if x.isNaN then y
  else if y.isNaN then x
  else if numLt y x then y
  else x

end KeyScan.Double
