/-!
Reading bytes as UTF-8. `decodeLossy` puts a replacement character in the place of each longest run
of bytes that starts a character and does not finish it; `decode` refuses such bytes.
-/

namespace KeyScan.Text

/-- The form of a character by its first byte: how many bytes follow, the bits the first byte
gives, and the range its second byte must lie in. -/
structure Lead where
  following : Nat
  bits : Nat
  low : Nat
  high : Nat

/-- The lead bytes of UTF-8. The second byte is narrowed so that no character has a longer form
than it needs, is a surrogate or lies past the last code point. -/
def Lead.ofByte? (byte : Nat) : Option Lead :=
  if byte < 0x80 then some ⟨0, byte, 0x80, 0xBF⟩
  else if 0xC2 ≤ byte ∧ byte ≤ 0xDF then some ⟨1, byte - 0xC0, 0x80, 0xBF⟩
  else if byte = 0xE0 then some ⟨2, 0, 0xA0, 0xBF⟩
  else if byte = 0xED then some ⟨2, 13, 0x80, 0x9F⟩
  else if 0xE1 ≤ byte ∧ byte ≤ 0xEF then some ⟨2, byte - 0xE0, 0x80, 0xBF⟩
  else if byte = 0xF0 then some ⟨3, 0, 0x90, 0xBF⟩
  else if 0xF1 ≤ byte ∧ byte ≤ 0xF3 then some ⟨3, byte - 0xF0, 0x80, 0xBF⟩
  else if byte = 0xF4 then some ⟨3, 4, 0x80, 0x8F⟩
  else none

/-- Where the reader stands: between characters, or inside one with the bits read so far, the
number of bytes owed and the range of the next one. -/
inductive Utf8State where
  | between
  | inside (bits owed low high : Nat)

/-- The states after a byte that opens a character, with what is read at once. -/
def openByte (byte : Nat) : List (Option Char) × Utf8State :=
  match Lead.ofByte? byte with
  | none => ([none], .between)
  | some lead =>
      if lead.following = 0 then ([some (Char.ofNat lead.bits)], .between)
      else ([], .inside lead.bits lead.following lead.low lead.high)

/-- One byte: what it completes (`none` marks ill-formed bytes) and the state after it. -/
def Utf8State.step : Utf8State → Nat → List (Option Char) × Utf8State
  | .between, byte => openByte byte
  | .inside bits owed low high, byte =>
      if low ≤ byte ∧ byte ≤ high then
        let bits := 64 * bits + (byte - 0x80)
        if owed ≤ 1 then ([some (Char.ofNat bits)], .between)
        else ([], .inside bits (owed - 1) 0x80 0xBF)
      else
        let (read, state) := openByte byte
        (none :: read, state)

/-- The characters that the bytes hold, with `none` for each ill-formed run. -/
def decodeFrom : Utf8State → List UInt8 → List (Option Char)
  | .between, [] => []
  | .inside .., [] => [none]
  | state, byte :: rest =>
      let (read, next) := state.step byte.toNat
      read ++ decodeFrom next rest

def decodeLossy (bytes : List UInt8) : String :=
  String.ofList ((decodeFrom .between bytes).map fun c => c.getD '\uFFFD')

def decode? (bytes : List UInt8) : Option String :=
  ((decodeFrom .between bytes).mapM id).map String.ofList

end KeyScan.Text
