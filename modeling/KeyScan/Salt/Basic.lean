import KeyScan.Salt.CharRange

/-!
Salt alphabets: the bytes that may stand before a row key to spread rows, as disjoint character
ranges.
-/

namespace KeyScan

/-- The ranges of a salt alphabet in declaration order. -/
structure Salt where
  ranges : List CharRange
  deriving DecidableEq, Repr

namespace Salt

/-- By first byte, then by last byte. -/
def precedes (a b : CharRange) : Bool :=
  a.first < b.first || (a.first = b.first && a.last ≤ b.last)

/-- The first neighbours in the list of which the second starts no later than the first ends. -/
def overlap? : List CharRange → Option (CharRange × CharRange)
  | a :: b :: rest => if b.first ≤ a.last then some (a, b) else overlap? (b :: rest)
  | _ => none

/-- An alphabet of at least one range, no two of which overlap. -/
def ofRanges (ranges : List CharRange) : Except Error Salt :=
  if ranges = [] then .error (.invalidRange "" "salt alphabet is empty")
  else
    match overlap? (ranges.mergeSort precedes) with
    | some (a, b) => .error (.invalidRange (a.text ++ "," ++ b.text) "salt ranges overlap")
    | none => .ok ⟨ranges⟩

theorem ofRanges_eq_ok_iff {ranges : List CharRange} {salt : Salt} :
    ofRanges ranges = .ok salt ↔
      ranges ≠ [] ∧ overlap? (ranges.mergeSort precedes) = none ∧ salt = ⟨ranges⟩ := by
  rw [ofRanges]
  by_cases hempty : ranges = []
  · simp [hempty]
  · rw [if_neg hempty]
    cases hoverlap : overlap? (ranges.mergeSort precedes) <;> simp [hempty, eq_comm]

/-- Ranges are refused with one kind of error. -/
theorem exists_of_ofRanges_eq_error {ranges : List CharRange} {error : Error}
    (h : ofRanges ranges = .error error) :
    ∃ named message, error = .invalidRange named message := by
  rw [ofRanges] at h
  split at h
  · exact ⟨_, _, (Except.error.inj h).symm⟩
  · split at h
    · exact ⟨_, _, (Except.error.inj h).symm⟩
    · simp at h

/-- Reads ranges separated by commas. -/
def parse (input : String) : Except Error Salt := do
  let ranges ← (Text.pieces ',' input).mapM CharRange.parse
  match ofRanges ranges with
  | .error (.invalidRange _ message) => .error (.invalidRange input message)
  | result => result

/-- The number of salt bytes. -/
def size (salt : Salt) : Nat :=
  CharRange.totalSize salt.ranges

/-- Every salt byte, range by range. -/
def bytes (salt : Salt) : List UInt8 :=
  salt.ranges.flatMap CharRange.bytes

/-- The ranges as they are read. -/
def text (salt : Salt) : String :=
  String.intercalate "," (salt.ranges.map CharRange.text)

end Salt

end KeyScan
