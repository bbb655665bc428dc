import Supergraph.Json.Printer

/-!
# Reading JSON

Members keep the order they are written in. Some of what follows the grammar stands for no value and
is read as `unreadable`: a number out of range, a string with a surrogate that is not one of a pair,
an object with such a string as a name, and arrays and objects below 127 others. The latter are only
passed over, the innermost first, so they may nest to any depth.
-/

namespace Supergraph.Json

/-- Reads characters from the left. -/
abbrev Reader (α : Type) : Type := StateT (List Char) Option α

namespace Reader

/-- How deep arrays and objects nest. -/
def nestingLimit : Nat := 127

/-- White space between tokens. -/
def isSpace (c : Char) : Bool := c == ' ' || c == '\n' || c == '\t' || c == '\r'

def space : Reader Unit := fun cs => some ((), cs.dropWhile isSpace)

def peek : Reader (Option Char) := fun cs => some (cs.head?, cs)

def next : Reader Char := fun
  | c :: cs => some (c, cs)
  | [] => none

def char (c : Char) : Reader Unit := fun
  | c' :: cs => if c' = c then some ((), cs) else none
  | [] => none

/-- Takes the character `c` if it comes next, and says whether it did. -/
def charIfNext (c : Char) : Reader Bool := fun
  | c' :: cs => some (if c' = c then (true, cs) else (false, c' :: cs))
  | [] => some (false, [])

/-- Takes the characters of `word`. -/
def word : List Char → Reader Unit
  | [] => pure ()
  | c :: rest => do char c; word rest

/-- Takes the characters that satisfy `p`. -/
def many (p : Char → Bool) : Reader (List Char) := fun cs => some (cs.takeWhile p, cs.dropWhile p)

/-! ## Strings -/

/-- A piece of a string: a character, or a code unit of 16 bits that is written as an escape. -/
inductive Piece where
  | char (c : Char)
  | unit (n : Nat)

/-- The code unit with the given hexadecimal digits. -/
def unit? (a b c d : Char) : Option Nat := do
  return (((← Text.hexDigit? a) * 16 + (← Text.hexDigit? b)) * 16 + (← Text.hexDigit? c)) * 16 +
    (← Text.hexDigit? d)

/-- The character of an escape of two characters, given the second one. -/
def escaped? : Char → Option Char
  | '"' => some '"'
  | '\\' => some '\\'
  | '/' => some '/'
  | 'b' => some '\x08'
  | 'f' => some '\x0c'
  | 'n' => some '\n'
  | 'r' => some '\r'
  | 't' => some '\t'
  | _ => none

/-- The pieces of a string behind those of `done`, which are in reverse order, up to the closing
quote, which is taken. -/
def pieces (done : List Piece) : List Char → Option (List Piece × List Char)
  | [] => none
  | '"' :: rest => some (done.reverse, rest)
  | '\\' :: 'u' :: a :: b :: c :: d :: rest =>
    match unit? a b c d with
    | some n => pieces (.unit n :: done) rest
    | none => none
  | '\\' :: c :: rest =>
    match escaped? c with
    | some c => pieces (.char c :: done) rest
    | none => none
  -- Control characters stand in a string only as escapes.
  | c :: rest => if c.toNat < 0x20 then none else pieces (.char c :: done) rest

/-- The characters of pieces behind those of `done`, which are in reverse order. Surrogates stand
for a character only in pairs. -/
def join? (done : List Char) : List Piece → Option (List Char)
  | [] => some done.reverse
  | .char c :: rest => join? (c :: done) rest
  | .unit high :: rest =>
    if 0xD800 ≤ high ∧ high < 0xDC00 then
      match rest with
      | .unit low :: rest =>
        if 0xDC00 ≤ low ∧ low < 0xE000 then
          join? (Char.ofNat (0x10000 + (high - 0xD800) * 0x400 + (low - 0xDC00)) :: done) rest
        else none
      | _ => none
    -- A low surrogate without a high one.
    else if 0xDC00 ≤ high ∧ high < 0xE000 then none
    else join? (Char.ofNat high :: done) rest

/-- A string; there is no text for one with half a surrogate pair. -/
def string : Reader (Option String) := do
  char '"'
  let row ← pieces []
  return (join? [] row).map String.ofList

/-! ## Numbers -/

def isDigit (c : Char) : Bool := '0' ≤ c && c ≤ '9'

/-- One or more digits. -/
def digits : Reader (List Char) := do
  let row ← many isDigit
  if row.isEmpty then failure else return row

/-- The digits of a whole number, without leading zero. -/
def wholeDigits : Reader (List Char) := do
  if ← charIfNext '0' then
    if ((← peek).map isDigit).getD false then failure
    return ['0']
  else digits

/-- The digits behind a point, if there is one. -/
def fraction : Reader (Option (List Char)) := do
  if ← charIfNext '.' then return some (← digits) else return none

/-- The exponent, if there is one. -/
def exponent : Reader (Option Int) := do
  let mark ← peek
  if mark = some 'e' ∨ mark = some 'E' then
    let _ ← next
    let negative ← charIfNext '-'
    if ! negative then
      let _ ← charIfNext '+'
    let row ← digits
    return some (if negative then -(Decimal.ofDigits row) else Decimal.ofDigits row)
  else return none

/-- A number; there is none for one out of range. -/
def number : Reader (Option Number) := do
  let negative ← charIfNext '-'
  let whole ← wholeDigits
  let places ← fraction
  return Number.ofDigits? negative whole places (← exponent)

/-! ## Values -/

/-- A value that is no array or object. -/
def scalar : Reader Json := do
  match ← peek with
  | some 'n' => word ['n', 'u', 'l', 'l']; return .null
  | some 't' => word ['t', 'r', 'u', 'e']; return .bool true
  | some 'f' => word ['f', 'a', 'l', 's', 'e']; return .bool false
  | some '"' => return ((← string).map .string).getD .unreadable
  | _ => return ((← number).map .number).getD .unreadable

/-- The name of a member, up to its colon. -/
def name : Reader (Option String) := do
  space
  let name ← string
  space
  char ':'
  return name

/-- The items behind those of `done`, which are in reverse order, up to `close`, which is taken.
There are at most `fuel`. -/
def itemsRest {α : Type} (close : Char) (item : Reader α) (done : List α) :
    Nat → Reader (List α)
  | 0 => failure
  | fuel + 1 => do
    space
    if ← charIfNext close then return done.reverse
    char ','
    let next ← item
    itemsRest close item (next :: done) fuel

/-- Items with commas between them, up to `close`. -/
def items {α : Type} (close : Char) (item : Reader α) (fuel : Nat) : Reader (List α) := do
  space
  if ← charIfNext close then return []
  let first ← item
  itemsRest close item [first] fuel

/-- Takes the end of the innermost of some open arrays and objects, or the beginning of an item of
it. Each is given by its closing bracket. The result tells what is open then, and whether the
innermost of it has just been opened. -/
def skipStep (close : Char) (outer : List Char) (fresh : Bool) : Reader (List Char × Bool) := do
  space
  if ← charIfNext close then return (outer, false)
  if ! fresh then char ','
  if close = '\x7d' then
    let _ ← name
  space
  match ← peek with
  | some '[' => let _ ← next; return (']' :: close :: outer, true)
  | some '\x7b' => let _ ← next; return ('\x7d' :: close :: outer, true)
  | _ => let _ ← scalar; return (close :: outer, false)

/-- Passes over the rest of open arrays and objects, in at most `fuel` steps. -/
def skip (opened : List Char) (fresh : Bool) : Nat → Reader Unit
  | 0 => failure
  | fuel + 1 =>
    match opened with
    | [] => pure ()
    | close :: outer => do
      let (opened, fresh) ← skipStep close outer fresh
      skip opened fresh fuel

/-- The object with the given members; all names must be texts. -/
def objectOf (members : List (Option String × Json)) : Json :=
  let named := members.filterMap fun (name, value) => name.map (·, value)
  if named.length = members.length then .object named else .unreadable

/-- A value with at most the given number of levels, after white space. No array and no object has
more than `fuel` characters. -/
def value (fuel : Nat) : Nat → Reader Json
  | 0 => do
    space
    match ← peek with
    | some '[' => let _ ← next; skip [']'] true fuel; return .unreadable
    | some '\x7b' => let _ ← next; skip ['\x7d'] true fuel; return .unreadable
    | _ => scalar
  | depth + 1 => do
    space
    match ← peek with
    | some '[' => let _ ← next; return .array (← items ']' (value fuel depth) fuel)
    | some '\x7b' =>
      let _ ← next
      let member : Reader (Option String × Json) := do return (← name, ← value fuel depth)
      return objectOf (← items '\x7d' member fuel)
    | _ => scalar

end Reader

/-- Reads a text as one value, with white space around it. -/
def parse? (text : String) : Option Json :=
  let cs := text.toList
  match (Reader.value cs.length Reader.nestingLimit).run cs with
  | some (value, rest) => if rest.all Reader.isSpace then some value else none
  | none => none

example : (parse? " [1, -0, 1.50, \"\\u00e9\\ud83d\\ude00\"] ").map print =
    some "[1,-0.0,1.5,\"é😀\"]" := by decide +kernel
example : (parse? "[18446744073709551615, 18446744073709551616, 1e-400, 0.1000]").map print =
    some "[18446744073709551615,1.8446744073709552e+19,0.0,0.1]" := by decide +kernel
example : parse? "[1e400, \"\\ud800\", \x7b\"\\udc00\": 1\x7d, []]" =
    some (.array [.unreadable, .unreadable, .unreadable, .array []]) := by decide +kernel
example : parse? "\x7b\"a\": 1, \"a\": null\x7d" =
    some (.object [("a", .number (.int 1 (by decide))), ("a", .null)]) := by decide +kernel
example : parse? "[1,]" = none := by decide +kernel
example : (["1e5", "1E+5", "1e-7", "1eE5", "1e+-5", "1e", "01"].map fun text =>
    (parse? text).map print) =
    [some "100000.0", some "100000.0", some "1e-7", none, none, none, none] := by decide +kernel

end Supergraph.Json
