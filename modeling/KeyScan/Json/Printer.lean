import KeyScan.Double.Shortest
import KeyScan.Json.Basic
import KeyScan.Text.Integer
import KeyScan.Text.Utf8

/-!
JSON text without blanks. Strings escape quotes, backslashes and control characters only.
-/

namespace KeyScan.Json

/-- A character inside a string. -/
def escapeChar (c : Char) : List Char :=
  match c with
  | '"' => ['\\', '"']
  | '\\' => ['\\', '\\']
  | '\x08' => ['\\', 'b']
  | '\x0c' => ['\\', 'f']
  | '\n' => ['\\', 'n']
  | '\r' => ['\\', 'r']
  | '\t' => ['\\', 't']
  | c =>
      if c.toNat < 0x20 then
        ['\\', 'u', '0', '0'] ++ Nat.toDigits 16 (c.toNat / 16) ++ Nat.toDigits 16 (c.toNat % 16)
      else [c]

def quoted (value : String) : List Char :=
  '"' :: value.toList.flatMap escapeChar ++ ['"']

mutual

def chars : Json → List Char
  | null => ['n', 'u', 'l', 'l']
  | bool true => ['t', 'r', 'u', 'e']
  | bool false => ['f', 'a', 'l', 's', 'e']
  | int n => Text.integerChars n
  | real x => if x.isFinite then x.text.toList else ['n', 'u', 'l', 'l']
  | text value => quoted value
  | brokenText bytes _ => quoted (Text.decodeLossy bytes)
  | array [] => ['[', ']']
  | array (item :: rest) => '[' :: chars item ++ itemsChars rest
  | object [] => ['\x7b', '\x7d']
  | object ((name, item) :: rest) =>
      '\x7b' :: quoted name ++ ':' :: chars item ++ membersChars rest
  | brokenObject _ => ['\x7b', '\x7d']

/-- The items after the first, and the closing bracket. -/
def itemsChars : List Json → List Char
  | [] => [']']
  | item :: rest => ',' :: chars item ++ itemsChars rest

/-- The members after the first, and the closing brace. -/
def membersChars : List (String × Json) → List Char
  | [] => ['\x7d']
  | (name, item) :: rest => ',' :: quoted name ++ ':' :: chars item ++ membersChars rest

end

/-- A value as compact JSON text. -/
def render (value : Json) : String :=
  String.ofList value.chars

end KeyScan.Json
