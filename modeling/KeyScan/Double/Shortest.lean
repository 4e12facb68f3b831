import KeyScan.Double.Basic

/-!
The shortest decimal of a double: the fewest digits that read back as it, of those the nearest to
it, a tie upward. It is written in positional notation, however large or small the number.
-/

namespace KeyScan.Double

/-- The decimals that round to a finite double lie between `low / den` and `high / den`; the ends
count exactly if the mantissa is even. -/
structure Interval where
  low : Nat
  value : Nat
  high : Nat
  den : Nat
  closed : Bool

/-- Half a place to either side, a quarter below where the places get finer. -/
def interval (x : Double) : Interval :=
  let (num, den) := x.ratio
  let place := Nat.pow 2 x.exponent.toNat
  let finerBelow := x.mantissa = binade && 2 * binade ≤ x.magnitude
  { low := 4 * num - (if finerBelow then place else 2 * place)
    value := 4 * num
    high := 4 * num + 2 * place
    den := 4 * den
    closed := x.mantissa % 2 = 0 }

/-- The decimal `n * 10 ^ exp` lies in the interval. -/
def Interval.holds (i : Interval) (n : Nat) (exp : Int) : Bool :=
  let num := n * Nat.pow 10 exp.toNat * i.den
  let unit := Nat.pow 10 (-exp).toNat
  if i.closed then i.low * unit ≤ num && num ≤ i.high * unit
  else i.low * unit < num && num < i.high * unit

/-- The power of ten just above the value. -/
def Interval.point (i : Interval) : Int :=
  ((Nat.toDigits 10 (i.value * Nat.pow 10 400 / i.den)).length : Int) - 400

/-- The decimal on the grid of `10 ^ exp` that lies in the interval and is nearest to the value. -/
def Interval.onGrid (i : Interval) (exp : Int) : Option Nat :=
  let num := i.value * Nat.pow 10 (-exp).toNat
  let unit := i.den * Nat.pow 10 exp.toNat
  let below := num / unit
  match i.holds below exp, i.holds (below + 1) exp with
  | true, false => some below
  | false, true => some (below + 1)
  | true, true => some (if unit ≤ 2 * (num % unit) then below + 1 else below)
  | false, false => none

/-- Grids of one digit more each, until one has a decimal in the interval. -/
def Interval.search (i : Interval) : Nat → Int → Nat × Int
  | 0, exp => (i.value * Nat.pow 10 (-exp).toNat / (i.den * Nat.pow 10 exp.toNat), exp)
  | more + 1, exp =>
      match i.onGrid exp with
      | some n => (n, exp)
      | none => i.search more (exp - 1)

/-- The shortest decimal `n * 10 ^ exp` of a finite double other than zero. Seventeen digits
always suffice. A number just below a power of ten is found as `10` on the first grid. -/
def shortest (x : Double) : Nat × Int :=
  let i := x.interval
  let (n, exp) := i.search 17 (i.point - 1)
  if n % 10 = 0 then (n / 10, exp + 1) else (n, exp)

/-- The decimal `n * 10 ^ exp` without an exponent, and without a point where it is whole. -/
def positional (n : Nat) (exp : Int) : List Char :=
  let digits := Nat.toDigits 10 n
  if 0 ≤ exp then digits ++ List.replicate exp.toNat '0'
  else
    let places := (-exp).toNat
    let padded := List.replicate (places + 1 - digits.length) '0' ++ digits
    padded.take (padded.length - places) ++ '.' :: padded.drop (padded.length - places)

/-- A double as text. -/
def text (x : Double) : String :=
  if x.isNaN then "NaN"
  else
    let sign := if x.isNegative then ['-'] else []
    let digits :=
      if x.isInfinite then ['i', 'n', 'f']
      else if x.isZero then ['0']
      else positional x.shortest.1 x.shortest.2
    String.ofList (sign ++ digits)

end KeyScan.Double
