/-!
Row keys: byte strings in lexicographic order, their immediate successor, and the first key past
all keys that share a prefix.
-/

namespace KeyScan

/-- A row key. Keys compare byte by byte, and a proper prefix comes first. -/
abbrev Key := List UInt8

namespace Key

/-- The UTF-8 bytes of a text. -/
def ofText (text : String) : Key :=
  text.toByteArray.data.toList

/-- The smallest key greater than `key`. -/
def successor (key : Key) : Key :=
  key ++ [0]

/-- The smallest key greater than every key that starts with the given bytes. There is none when
all of them are 255, or there are none. -/
def prefixSuccessor : Key → Option Key
  | [] => none
  | byte :: rest =>
      match prefixSuccessor rest with
      | some next => some (byte :: next)
      | none => if byte < 255 then some [byte + 1] else none

/-- The larger of two keys. -/
def larger (a b : Key) : Key :=
  if a < b then b else a

/-- The smaller of two keys. -/
def smaller (a b : Key) : Key :=
  if b < a then b else a

end Key

end KeyScan
