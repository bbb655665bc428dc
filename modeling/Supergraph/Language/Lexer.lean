import Supergraph.Language.Token
import Supergraph.Text.QuotedString

/-!
# Splitting a text into tokens

Between tokens stand white space, commas, byte order marks and comments. A comment runs from `#` to
the next carriage return or line feed, which belongs to it. A tab counts as eight columns, a
carriage return and a byte order mark as none.

`scan` reads a text up to its end or up to the first place where no token starts. Every token keeps
the place it starts at.
-/

namespace Supergraph.Lexer

/-! ## Between tokens -/

/-- Skips what stands between tokens; `comment` says whether the text starts inside a comment. -/
def skip (comment : Bool) (p : Position) : List Char → List Char × Position
  | [] => ([], p)
  | c :: rest =>
    if comment then
      if c = '\n' ∨ c = '\r' then skip false p.newline rest else skip true p rest
    else if c = ' ' ∨ c = ',' then skip false (p.right 1) rest
    else if c = '\t' then skip false (p.right 8) rest
    else if c = '\n' then skip false p.newline rest
    else if c = '\r' ∨ c = '\ufeff' then skip false p rest
    else if c = '#' then skip true p rest
    else (c :: rest, p)

/-! ## Names and signs -/

/-- Characters a name may start with. -/
def isNameStart (c : Char) : Bool :=
  c == '_' || ('a' ≤ c && c ≤ 'z') || ('A' ≤ c && c ≤ 'Z')

/-- Characters a name may go on with. -/
def isNameRest (c : Char) : Bool := isNameStart c || ('0' ≤ c && c ≤ '9')

/-- Names of the language. -/
def isName : List Char → Bool
  | [] => false
  | c :: rest => isNameStart c && rest.all isNameRest

/-- The sign made of one character. -/
def signOf? : Char → Option Sign
  | '(' => some .openParen
  | ')' => some .closeParen
  | '[' => some .openBracket
  | ']' => some .closeBracket
  | '{' => some .openBrace
  | '}' => some .closeBrace
  | '!' => some .bang
  | '$' => some .dollar
  | ':' => some .colon
  | '=' => some .equals
  | '@' => some .at
  | '|' => some .pipe
  | '&' => some .ampersand
  | _ => none

/-! ## Numbers -/

/-- Characters a number starts with. -/
def isNumberStart (c : Char) : Bool := c == '-' || ('0' ≤ c && c ≤ '9')

/-- Characters that end a number. -/
def endsNumber (c : Char) : Bool :=
  c == ' ' || c == '\n' || c == '\r' || c == '\t' || c == ',' || c == '#' || (signOf? c).isSome

/-- Splits a row at the last character that satisfies `p`. -/
def splitLast? (p : Char → Bool) : List Char → Option (List Char × List Char)
  | [] => none
  | c :: rest =>
    match splitLast? p rest with
    | some (before, after) => some (c :: before, after)
    | none => if p c then some ([], rest) else none

def isDigits (row : List Char) : Bool := row.all fun c => '0' ≤ c && c ≤ '9'

/-- The sign and the digits of a whole number, which has no leading zero. -/
def whole? (row : List Char) : Option (Bool × List Char) :=
  let (negative, digits) := match row with
    | '-' :: digits => (true, digits)
    | digits => (false, digits)
  if digits = [] ∨ ! isDigits digits ∨ (digits.head? = some '0' ∧ digits.length ≠ 1) then none
  else some (negative, digits)

/-- An integer that fits in 64 bits. -/
def int? (row : List Char) : Option Token := do
  let (negative, digits) ← whole? row
  let n : Int := if negative then -(Decimal.ofDigits digits) else Decimal.ofDigits digits
  if -9223372036854775808 ≤ n ∧ n < 9223372036854775808 then some (.int n) else none

/-- The digits behind the point, at least one. -/
def fraction? (row : List Char) : Option (List Char) :=
  if row ≠ [] ∧ isDigits row then some row else none

/-- An exponent: it has a sign before one or more digits, or starts with a digit from 1 to 8. -/
def exponent? : List Char → Option Int
  | '-' :: digits =>
    if digits ≠ [] ∧ isDigits digits then some (-(Decimal.ofDigits digits)) else none
  | '+' :: digits =>
    if digits ≠ [] ∧ isDigits digits then some (Decimal.ofDigits digits) else none
  | c :: digits =>
    if '1' ≤ c ∧ c ≤ '8' ∧ isDigits digits then some (Decimal.ofDigits (c :: digits)) else none
  | [] => none

/-- A float from its whole part and digits behind the point, times a power of ten. -/
def floatOf? (mantissa : List Char) (exponent : Int) : Option Token :=
  match splitLast? (· == '.') mantissa with
  | some (front, back) => do
    let (negative, digits) ← whole? front
    let places ← fraction? back
    let coefficient := Decimal.ofDigits (digits ++ places)
    return .float (.ofDecimal negative coefficient (exponent - places.length))
  | none => do
    let (negative, digits) ← whole? mantissa
    return .float (.ofDecimal negative (Decimal.ofDigits digits) exponent)

/-- The number that a row of characters writes. -/
def number? (row : List Char) : Option Token :=
  match splitLast? (fun c => c == 'e' || c == 'E') row with
  | some (mantissa, power) => (exponent? power).bind (floatOf? mantissa)
  -- Without an exponent only a point makes the number a float.
  | none => if row.contains '.' then floatOf? row 0 else int? row

/-! ## Strings -/

/-- The inside of a quoted string and what follows its closing quote. A string has one line. -/
def quotedInside? : List Char → Option (List Char × List Char)
  | [] => none
  | '"' :: rest => some ([], rest)
  | '\n' :: _ => none
  -- An escape does not let a string go on in the next line.
  | '\\' :: '\n' :: _ => none
  | '\\' :: c :: rest => (quotedInside? rest).map fun (inside, rest) => ('\\' :: c :: inside, rest)
  | c :: rest => (quotedInside? rest).map fun (inside, rest) => (c :: inside, rest)

/-- The inside of a block string and what follows its closing quotes. -/
def blockInside? : List Char → Option (List Char × List Char)
  | [] => none
  | '\\' :: '"' :: '"' :: '"' :: rest =>
    (blockInside? rest).map fun (inside, rest) => ('\\' :: '"' :: '"' :: '"' :: inside, rest)
  | '"' :: '"' :: '"' :: rest => some ([], rest)
  | c :: rest => (blockInside? rest).map fun (inside, rest) => (c :: inside, rest)

/-! ## One token -/

/-- A token, the characters it is written with, and the rest of the text. -/
structure Lexeme where
  token : Token
  text : List Char
  rest : List Char

/-- The string token at the start of a text. -/
def string? : List Char → Option Lexeme
  | '"' :: '"' :: '"' :: body => do
    let (inside, rest) ← blockInside? body
    return ⟨.string (.ofList (Text.unindent inside)),
      Text.tripleQuote ++ inside ++ Text.tripleQuote, rest⟩
  | '"' :: body => do
    let (inside, rest) ← quotedInside? body
    let value ← Text.unescape inside
    return ⟨.string (.ofList value), '"' :: inside ++ ['"'], rest⟩
  | _ => none

/-- The token at the start of a text. -/
def token? : List Char → Option Lexeme
  | [] => none
  | '.' :: '.' :: '.' :: rest => some ⟨.sign .spread, ['.', '.', '.'], rest⟩
  | c :: rest =>
    if isNameStart c then
      let text := c :: rest.takeWhile isNameRest
      some ⟨.name (.ofList text), text, rest.dropWhile isNameRest⟩
    else if isNumberStart c then
      let text := c :: rest.takeWhile (! endsNumber ·)
      (number? text).map fun token => ⟨token, text, rest.dropWhile (! endsNumber ·)⟩
    else if c = '"' then string? (c :: rest)
    else (signOf? c).map fun sign => ⟨.sign sign, [c], rest⟩

/-! ## The whole text -/

/-- The tokens of a text with their places. `complete` says that nothing but the end of the text
follows them, and `stop` is the place where they end. -/
structure Scan where
  tokens : List (Token × Position)
  stop : Position
  complete : Bool

/-- Reads tokens; a text of `fuel` characters has no more tokens than that. -/
def scanFrom : Nat → Position → List Char → Scan
  | 0, p, text => ⟨[], p, text.isEmpty⟩
  | fuel + 1, p, text =>
    let (text, p) := skip false p text
    match token? text with
    | none => ⟨[], p, text.isEmpty⟩
    | some lexeme =>
      -- A token has characters, so the fuel outlasts the text.
      let following := scanFrom fuel (p.after lexeme.text) lexeme.rest
      { following with tokens := (lexeme.token, p) :: following.tokens }

/-- The tokens of a text. -/
def scan (text : String) : Scan := scanFrom (text.length + 1) .start text.toList

end Supergraph.Lexer
