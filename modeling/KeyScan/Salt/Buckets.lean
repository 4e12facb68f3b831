import KeyScan.Double.Basic
import KeyScan.Key.Range
import KeyScan.Salt.CharRange

/-!
Buckets: character ranges cut into pieces of about equal size, each of which stands for the row keys
that begin with one of its bytes.
-/

namespace KeyScan.Buckets

/-- The bucket size: the average over the wanted number of buckets, a half rounded to even, and at
least one. -/
def step (ranges : List CharRange) (count : Nat) : Nat :=
  max 1 (Double.roundHalfEven (CharRange.totalSize ranges) count)

/-- A byte by its number. -/
def toByte (n : Nat) : UInt8 :=
  if n < 256 then UInt8.ofNat n else 255

/-- The range between two numbers of bytes. -/
def between (first last : Nat) : CharRange :=
  CharRange.spanning (toByte first) (toByte last)

/-- Buckets of `step` bytes from `first` on, as long as a full one is left after the next; the last
takes what remains. -/
def cut (step : Nat) (positive : 0 < step) (first last : Nat) : List CharRange :=
  if last < first + 2 * step - 1 then [between first last]
  else between first (first + step - 1) :: cut step positive (first + step) last
termination_by last + 1 - first
decreasing_by omega

/-- Every range cut into buckets on its own, in order. -/
def partition (ranges : List CharRange) (count : Nat) : Except Error (List CharRange) :=
  if count = 0 then .error (.invalidConfig "bucket count must be > 0")
  else
    .ok (ranges.flatMap fun range =>
      cut (step ranges count) (by unfold step; omega) range.first.toNat range.last.toNat)

/-- The buckets narrowed to a window, without those that lie outside it. -/
def clip (buckets : List CharRange) (window : CharRange) : List CharRange :=
  buckets.filterMap fun bucket => bucket.intersect window

/-- The row keys whose first byte lies in the bucket. -/
def keyRange (bucket : CharRange) : KeyRange :=
  ⟨some [bucket.first], if bucket.last < 255 then some [bucket.last + 1] else none⟩

end KeyScan.Buckets
