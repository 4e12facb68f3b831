import KeyScan.Error
import KeyScan.Text.Blank
import KeyScan.Text.Pieces

/-!
Closed intervals of single-byte characters, and how they are written: `a-b`, `a~b`, or `a` alone.
-/

namespace KeyScan

/-- The bytes from `first` to `last`. -/
structure CharRange where
  first : UInt8
  last : UInt8
  deriving DecidableEq, Repr

namespace CharRange

/-- The range between two bytes given in either order. -/
def spanning (a b : UInt8) : CharRange :=
  if a ≤ b then ⟨a, b⟩ else ⟨b, a⟩

def single (byte : UInt8) : CharRange := ⟨byte, byte⟩

/-- The number of bytes; one for a range whose ends are crossed. -/
def size (range : CharRange) : Nat :=
  range.last.toNat - range.first.toNat + 1

/-- The number of bytes in all ranges together. -/
def totalSize : List CharRange → Nat
  | [] => 0
  | range :: rest => range.size + totalSize rest

/-- The bytes in ascending order; none for a range whose ends are crossed. -/
def bytes (range : CharRange) : List UInt8 :=
  (List.range' range.first.toNat (range.last.toNat + 1 - range.first.toNat)).map UInt8.ofNat

def contains (range : CharRange) (byte : UInt8) : Bool :=
  range.first ≤ byte && byte ≤ range.last

/-- The bytes that both ranges hold. -/
def intersect (a b : CharRange) : Option CharRange :=
  let first := if a.first < b.first then b.first else a.first
  let last := if b.last < a.last then b.last else a.last
  if first ≤ last then some ⟨first, last⟩ else none

def charOf (byte : UInt8) : Char :=
  Char.ofNat byte.toNat

/-- The range as `a-b`, a byte past ASCII by the character of its number. -/
def chars (range : CharRange) : List Char :=
  [charOf range.first, '-', charOf range.last]

def text (range : CharRange) : String :=
  String.ofList range.chars

/-- A bound: one ASCII character. -/
def bound? : List Char → Option UInt8
  | [c] => if c.toNat < 128 then some (UInt8.ofNat c.toNat) else none
  | _ => none

/-- The two sides of a range: at the first tilde or, failing that, the first hyphen. -/
def sides? (cs : List Char) : Option (List Char × List Char) :=
  (Text.cutAt '~' cs).or (Text.cutAt '-' cs)

/-- Reads a range with blanks around it. Messages name the text as it was given. -/
def parse (input : String) : Except Error CharRange :=
  let trimmed := Text.trimChars input.toList
  let badBound := Error.invalidRange input "bounds must be single ASCII characters"
  match bound? trimmed with
  | some byte => .ok (single byte)
  | none =>
      match sides? trimmed with
      | none => .error (.invalidRange input "expected `start-end`")
      | some (low, high) =>
          match bound? low, bound? high with
          | some first, some last => .ok (spanning first last)
          | _, _ => .error badBound

end CharRange

end KeyScan
