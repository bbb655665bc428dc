import Supergraph.Text.Hex
import Supergraph.Text.Lines

/-!
# Quoted strings

String literals come in two forms. A *quoted* string stands between single double quotes and spells
some characters with a backslash; a *block* string stands between triple quotes, and its lines lose
their common indentation.

`unescape` and `unindent` read the inside of the two forms. `quote` writes a text: in quoted form
when it has a single line or holds a character no block may hold, else as a block whose lines are
indented two columns deeper than the line it starts on. The written form of a character outside
the basic plane is its code in decimal, so reading does not undo writing there.
-/

namespace Supergraph.Text

/-! ## Reading the quoted form -/

/-- The value of a row of hexadecimal digits. -/
def hexValue? (digits : List Char) : Option Nat :=
  digits.foldlM (fun value c => (hexDigit? c).map (16 * value + ·)) 0

/-- The character with code `n`, unless `n` is a surrogate or too large. -/
def charOfCode? (n : Nat) : Option Char :=
  if n.isValidChar then some (Char.ofNat n) else none

/-- The character of a four-place escape. The first place may hold a plus sign. -/
def escapedCode? (a b c d : Char) : Option Char :=
  let digits := if a = '+' then [b, c, d] else [a, b, c, d]
  (hexValue? digits).bind charOfCode?

/-- The character that a one-letter escape stands for. The letter `b` stands for U+0010. -/
def escapedLetter? : Char → Option Char
  | '"' => some '"'
  | '\\' => some '\\'
  | '/' => some '/'
  | 'b' => some '\x10'
  | 'f' => some '\x0c'
  | 'n' => some '\n'
  | 'r' => some '\r'
  | 't' => some '\t'
  | _ => none

/-- The text that the inside of a quoted string stands for, unless an escape is unknown. -/
def unescape : List Char → Option (List Char)
  | [] => some []
  | '\\' :: 'u' :: a :: b :: c :: d :: rest => do
    let character ← escapedCode? a b c d
    return character :: (← unescape rest)
  | '\\' :: letter :: rest => do
    let character ← escapedLetter? letter
    return character :: (← unescape rest)
  | '\\' :: [] => none
  | c :: rest => (unescape rest).map (c :: ·)

/-! ## Reading the block form -/

/-- Replaces every escaped triple quote by a plain one. -/
def plainTripleQuotes : List Char → List Char
  | '\\' :: '"' :: '"' :: '"' :: rest => '"' :: '"' :: '"' :: plainTripleQuotes rest
  | c :: rest => c :: plainTripleQuotes rest
  | [] => []

def byteLength : List Char → Nat
  | [] => 0
  | c :: rest => c.utf8Size + byteLength rest

/-- Drops characters that fill `n` bytes of UTF-8. -/
def dropBytes : Nat → List Char → List Char
  | 0, text => text
  | _ + 1, [] => []
  | n + 1, c :: rest => dropBytes (n + 1 - c.utf8Size) rest
termination_by _ text => text.length

/-- Drops the blank lines at both ends, keeping each line's number. -/
def dropBlankEnds (numbered : List (List Char × Nat)) : List (List Char × Nat) :=
  let blank := fun line : List Char × Nat => isBlankLine line.1
  ((numbered.dropWhile blank).reverse.dropWhile blank).reverse

/-- The least indentation, in bytes, of the lines that are not blank, the first line aside. -/
def commonIndent? (all : List (List Char)) : Option Nat :=
  let textLines := (all.drop 1).filter (! isBlankLine ·)
  (textLines.map fun line => byteLength (line.takeWhile isBlank)).min?

/-- A line without the common indentation, provided it is that long. The first line, which has the
number zero, stays as it is. -/
def shorten (indent : Option Nat) (line : List Char × Nat) : List Char :=
  match indent with
  | some indent =>
    if line.2 ≠ 0 ∧ indent ≤ byteLength line.1 then dropBytes indent line.1 else line.1
  | none => line.1

/-- The text that the inside of a block string stands for: blank lines at both ends go, and the
others lose their common indentation. -/
def unindent (text : List Char) : List Char :=
  let all := lines text
  let indent := commonIndent? all
  unlines ((dropBlankEnds all.zipIdx).map fun line => plainTripleQuotes (shorten indent line))

/-! ## Writing -/

/-- Characters that a string may hold as they are. -/
def isPrintable (c : Char) : Bool := ' ' ≤ c && c ≤ '\uffff'

/-- A text escaped for the quoted form. -/
def escape : List Char → List Char
  | [] => []
  | '\r' :: rest => '\\' :: 'r' :: escape rest
  | '\n' :: rest => '\\' :: 'n' :: escape rest
  | '\t' :: rest => '\\' :: 't' :: escape rest
  | '"' :: rest => '\\' :: '"' :: escape rest
  | '\\' :: rest => '\\' :: '\\' :: escape rest
  | c :: rest =>
    if isPrintable c then c :: escape rest
    else '\\' :: 'u' :: ((Nat.toDigits 10 c.toNat).leftpad 4 '0' ++ escape rest)

/-- Whether a text can be written as a block: it has several lines and every character is either
printable or one of line feed, carriage return and tab. -/
def fitsBlock (text : List Char) : Bool :=
  text.contains '\n' && text.all fun c => isPrintable c || c == '\n' || c == '\r' || c == '\t'

/-- Escapes every triple quote, from the left. -/
def escapeTripleQuotes : List Char → List Char
  | '"' :: '"' :: '"' :: rest => '\\' :: '"' :: '"' :: '"' :: escapeTripleQuotes rest
  | c :: rest => c :: escapeTripleQuotes rest
  | [] => []

/-- One line of a block, with its line feed. Blank lines are written empty. -/
def blockLine (indent : Nat) (line : List Char) : List Char :=
  if isBlankLine line then ['\n']
  else List.replicate indent ' ' ++ escapeTripleQuotes line ++ ['\n']

/-- The three quotes around a block. -/
def tripleQuote : List Char := ['"', '"', '"']

/-- A text as a string literal that starts on a line indented by `indent`. -/
def quote (indent : Nat) (text : List Char) : List Char :=
  if fitsBlock text then
    tripleQuote ++ '\n' :: (lines text).flatMap (blockLine (indent + 2)) ++
      List.replicate indent ' ' ++ tripleQuote
  else '"' :: escape text ++ ['"']

example : unescape "a\\u0041\\n".toList = some "aA\n".toList := by decide
example : unescape "\\ud800".toList = none := by decide
example : unindent "\n    a\n\n      b\n  ".toList = "a\n\n  b".toList := by decide +kernel
example : quote 0 "😀\x1f".toList = "\"\\u128512\\u0031\"".toList := by decide +kernel
example : quote 2 "a\nb".toList = "\"\"\"\n    a\n    b\n  \"\"\"".toList := by decide +kernel

end Supergraph.Text
