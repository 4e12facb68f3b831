import KeyScan.Json.Number
import KeyScan.Text.Utf8

/-!
JSON text: one value with blanks around it, no comments, no trailing commas, no leading zeros. A
control character that stands in a string as it is makes the string a broken one, and is refused in
a name. Every parser takes the characters left and returns what it read with the characters after
it.
-/

namespace KeyScan.Json

def isSpace (c : Char) : Bool :=
  c = ' ' || c = '\n' || c = '\t' || c = '\r'

def skipSpace (cs : List Char) : List Char :=
  cs.dropWhile isSpace

/-! ### Strings -/

def hexDigit? (c : Char) : Option Nat :=
  if c.isDigit then some (c.toNat - 48)
  else if 'a' ≤ c && c ≤ 'f' then some (c.toNat - 87)
  else if 'A' ≤ c && c ≤ 'F' then some (c.toNat - 55)
  else none

/-- The number of four hexadecimal digits. -/
def codeUnit? (a b c d : Char) : Option Nat := do
  return 4096 * (← hexDigit? a) + 256 * (← hexDigit? b) + 16 * (← hexDigit? c) + (← hexDigit? d)

/-- The character that a backslash and a letter stand for. -/
def shortEscape? (c : Char) : Option Nat :=
  match c with
  | '"' => some 34
  | '\\' => some 92
  | '/' => some 47
  | 'b' => some 8
  | 'f' => some 12
  | 'n' => some 10
  | 'r' => some 13
  | 't' => some 9
  | _ => none

/-- What stands between quotes: the numbers of characters and of escaped code units, and whether no
control character is among the characters. -/
structure Quoted where
  units : List Nat
  strict : Bool

/-- The rest of a string after its opening quote. -/
def stringBody : List Char → Option (Quoted × List Char)
  | [] => none
  | '"' :: rest => some (⟨[], true⟩, rest)
  | '\\' :: 'u' :: a :: b :: c :: d :: rest => do
      let unit ← codeUnit? a b c d
      let (body, rest) ← stringBody rest
      return (⟨unit :: body.units, body.strict⟩, rest)
  | '\\' :: c :: rest => do
      let unit ← shortEscape? c
      let (body, rest) ← stringBody rest
      return (⟨unit :: body.units, body.strict⟩, rest)
  | c :: rest =>
      if c = '\\' then none
      else do
        let (body, rest) ← stringBody rest
        return (⟨c.toNat :: body.units, body.strict && 0x20 ≤ c.toNat⟩, rest)

def isHighSurrogate (n : Nat) : Bool := 0xD800 ≤ n && n < 0xDC00

def isLowSurrogate (n : Nat) : Bool := 0xDC00 ≤ n && n < 0xE000

/-- Each high surrogate joined with a low one right after it. -/
def joinPairs : List Nat → List Nat
  | high :: low :: rest =>
      if isHighSurrogate high && isLowSurrogate low then
        (0x10000 + (high - 0xD800) * 0x400 + (low - 0xDC00)) :: joinPairs rest
      else high :: joinPairs (low :: rest)
  | units => units

/-- The bytes of a code point, surrogates included. -/
def codePointBytes (n : Nat) : List UInt8 :=
  if n < 0x80 then [UInt8.ofNat n]
  else if n < 0x800 then [UInt8.ofNat (0xC0 + n / 64), UInt8.ofNat (0x80 + n % 64)]
  else if n < 0x10000 then
    [UInt8.ofNat (0xE0 + n / 4096), UInt8.ofNat (0x80 + n / 64 % 64), UInt8.ofNat (0x80 + n % 64)]
  else
    [UInt8.ofNat (0xF0 + n / 262144), UInt8.ofNat (0x80 + n / 4096 % 64),
      UInt8.ofNat (0x80 + n / 64 % 64), UInt8.ofNat (0x80 + n % 64)]

/-- The string between the quotes: a text unless half a surrogate pair is left or it is not
strict. -/
def ofQuoted (body : Quoted) : Json :=
  let points := joinPairs body.units
  if body.strict && !points.any fun n => isHighSurrogate n || isLowSurrogate n then
    text (String.ofList (points.map Char.ofNat))
  else brokenText (points.flatMap codePointBytes) body.strict

/-- A name between quotes, if it is strict; it may still be no text. -/
def name? (body : Quoted) : Option (Option String) :=
  match ofQuoted body with
  | text name => some (some name)
  | _ => if body.strict then some none else none

/-- The object of the members, whose names may be no texts. -/
def ofMembers (members : List (Option String × Json)) : Json :=
  match members.mapM fun m => m.1.map fun name => (name, m.2) with
  | some named => object named
  | none => brokenObject (members.map (·.2))

/-! ### Numbers -/

/-- One or more digits, and what follows them. -/
def digits? (cs : List Char) : Option (List Char × List Char) :=
  match cs.takeWhile Char.isDigit with
  | [] => none
  | digits => some (digits, cs.dropWhile Char.isDigit)

/-- The digits after a point, if there is one. -/
def fraction? : List Char → Option (List Char × List Char)
  | '.' :: cs => digits? cs
  | cs => some ([], cs)

def exponentDigits? (negative : Bool) (cs : List Char) : Option (Int × List Char) := do
  let (digits, rest) ← digits? cs
  let n := (digits.foldl (fun acc c => 10 * acc + (c.toNat - 48)) 0 : Nat)
  return (if negative then -n else n, rest)

/-- The exponent after its mark, if there is one. -/
def exponent? : List Char → Option (Option Int × List Char)
  | c :: cs =>
      if c = 'e' || c = 'E' then
        let read :=
          match cs with
          | '+' :: cs => exponentDigits? false cs
          | '-' :: cs => exponentDigits? true cs
          | cs => exponentDigits? false cs
        read.map fun (exponent, rest) => (some exponent, rest)
      else some (none, c :: cs)
  | [] => some (none, [])

/-- A number after its sign. -/
def number? (negative : Bool) (cs : List Char) : Option (Json × List Char) := do
  let (whole, rest) ← digits? cs
  if whole.head? = some '0' && whole.length ≠ 1 then none
  else
    let (fraction, rest) ← fraction? rest
    let (exponent, rest) ← exponent? rest
    if fraction.isEmpty && exponent.isNone then return (ofInteger negative whole, rest)
    else return (real (Decimal.toDouble ⟨negative, whole, fraction, exponent.getD 0⟩), rest)

/-! ### Values -/

mutual

/-- A value at the head of the characters. Each step down takes at least one character, so as much
fuel as there are characters is enough. -/
def value? : Nat → List Char → Option (Json × List Char)
  | 0, _ => none
  | fuel + 1, cs =>
      match cs with
      | 'n' :: 'u' :: 'l' :: 'l' :: rest => some (null, rest)
      | 't' :: 'r' :: 'u' :: 'e' :: rest => some (bool true, rest)
      | 'f' :: 'a' :: 'l' :: 's' :: 'e' :: rest => some (bool false, rest)
      | '"' :: rest => (stringBody rest).map fun (body, rest) => (ofQuoted body, rest)
      | '[' :: rest =>
          match skipSpace rest with
          | ']' :: rest => some (array [], rest)
          | rest => (items? fuel rest).map fun (items, rest) => (array items, rest)
      | '\x7b' :: rest =>
          match skipSpace rest with
          | '\x7d' :: rest => some (object [], rest)
          | rest => (members? fuel rest).map fun (members, rest) => (ofMembers members, rest)
      | '-' :: rest => number? true rest
      | cs => number? false cs

/-- One or more values up to the closing bracket. -/
def items? : Nat → List Char → Option (List Json × List Char)
  | 0, _ => none
  | fuel + 1, cs => do
      let (item, rest) ← value? fuel cs
      match skipSpace rest with
      | ']' :: rest => return ([item], rest)
      | ',' :: rest =>
          let (items, rest) ← items? fuel (skipSpace rest)
          return (item :: items, rest)
      | _ => none

/-- One or more members up to the closing brace. -/
def members? : Nat → List Char → Option (List (Option String × Json) × List Char)
  | 0, _ => none
  | fuel + 1, cs =>
      match cs with
      | '"' :: rest => do
          let (body, rest) ← stringBody rest
          let name ← name? body
          match skipSpace rest with
          | ':' :: rest =>
              let (item, rest) ← value? fuel (skipSpace rest)
              match skipSpace rest with
              | '\x7d' :: rest => return ([(name, item)], rest)
              | ',' :: rest =>
                  let (members, rest) ← members? fuel (skipSpace rest)
                  return ((name, item) :: members, rest)
              | _ => none
          | _ => none
      | _ => none

end

/-- A text that is one JSON value. -/
def parse? (source : String) : Option Json := do
  let cs := source.toList
  let (item, rest) ← value? (cs.length + 1) (skipSpace cs)
  if (skipSpace rest).isEmpty then return item else none

end KeyScan.Json
