import Supergraph.Json.Value
import Supergraph.Text.Hex

/-!
# Writing JSON

Compact text without spaces, members in the order they are held in. Strings escape the quote, the
backslash and the characters below the space; everything else stands as it is. A place that cannot
be read is written as `null`.
-/

namespace Supergraph.Json

/-! ## Strings -/

/-- A character inside a string. -/
def escapeChar (c : Char) : List Char :=
  if c = '"' then ['\\', '"']
  else if c = '\\' then ['\\', '\\']
  else if c = '\x08' then ['\\', 'b']
  else if c = '\x0c' then ['\\', 'f']
  else if c = '\n' then ['\\', 'n']
  else if c = '\r' then ['\\', 'r']
  else if c = '\t' then ['\\', 't']
  else if c.toNat < 0x20 then
    ['\\', 'u', '0', '0', Text.hexChar (c.toNat / 16), Text.hexChar (c.toNat % 16)]
  else [c]

/-- A string with its quotes. -/
def quoteText (text : String) : List Char := '"' :: text.toList.flatMap escapeChar ++ ['"']

/-! ## Values -/

mutual

/-- A value as text. -/
def chars : Json → List Char
  | .null | .unreadable => ['n', 'u', 'l', 'l']
  | .bool true => ['t', 'r', 'u', 'e']
  | .bool false => ['f', 'a', 'l', 's', 'e']
  | .number n => n.text
  | .string text => quoteText text
  | .array items => '[' :: itemChars items ++ [']']
  | .object members => '\x7b' :: memberChars members ++ ['\x7d']

def itemChars : List Json → List Char
  | [] => []
  | [item] => item.chars
  | item :: rest => item.chars ++ ',' :: itemChars rest

def memberChars : List (String × Json) → List Char
  | [] => []
  | [(name, value)] => quoteText name ++ ':' :: value.chars
  | (name, value) :: rest => quoteText name ++ ':' :: value.chars ++ ',' :: memberChars rest

end

/-- A value as text. -/
def print (value : Json) : String := .ofList value.chars

example : (object [("a", array [null, bool true]), ("b\n", string "\x01")]).print =
    "\x7b\"a\":[null,true],\"b\\n\":\"\\u0001\"\x7d" := by decide +kernel

end Supergraph.Json
