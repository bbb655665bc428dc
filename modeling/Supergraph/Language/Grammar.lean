import Supergraph.Language.Lexer

/-!
# Grammars over tokens

A `Parser` reads a row of tokens from the left. It either succeeds with a value and the tokens that
follow, or is stuck at the first token that cannot continue what was read; the error is the row that
starts with that token. The grammars here never go back: the next token decides between
alternatives.

Brackets nest at most `nestingLimit` deep. Each bracketed production takes the number of levels that
are still free, which also bounds its recursion.
-/

namespace Supergraph

/-- Reads tokens from the left, or is stuck at the row it cannot continue with. -/
abbrev Parser (α : Type) : Type := StateT (List Token) (Except (List Token)) α

namespace Parser

/-- How deep brackets nest. -/
def nestingLimit : Nat := 50

/-! ## Single tokens -/

/-- The next token, which is not taken. -/
def peek : Parser (Option Token) := fun ts => .ok (ts.head?, ts)

def skip : Parser Unit := fun ts => .ok ((), ts.tail)

/-- Is stuck at the next token. -/
def stuck {α : Type} : Parser α := fun ts => .error ts

/-- Is stuck at a place that was passed already. -/
def stuckAt {α : Type} (ts : List Token) : Parser α := fun _ => .error ts

def sign (s : Sign) : Parser Unit := fun
  | .sign s' :: ts => if s = s' then .ok ((), ts) else .error (.sign s' :: ts)
  | ts => .error ts

def name : Parser String := fun
  | .name text :: ts => .ok (text, ts)
  | ts => .error ts

def keyword (word : String) : Parser Unit := fun
  | .name text :: ts => if text = word then .ok ((), ts) else .error (.name text :: ts)
  | ts => .error ts

/-- Whether the next token is the sign `s`. -/
def nextIs (s : Sign) : Parser Bool := fun ts => .ok (ts.head? = some (.sign s), ts)

/-- Whether the next token is the name `word`. -/
def nextIsWord (word : String) : Parser Bool := fun ts => .ok (ts.head? = some (.name word), ts)

/-- Takes the sign `s` if it comes next, and says whether it did. -/
def signIfNext (s : Sign) : Parser Bool := do
  if ← nextIs s then skip; return true else return false

/-! ## Repetition -/

/-- Items as long as the next token is the sign `s`; there are at most `fuel` of them. -/
def whileNext {α : Type} (s : Sign) (item : Parser α) : Nat → Parser (List α)
  | 0 => pure []
  | fuel + 1 => do
    if ← nextIs s then return (← item) :: (← whileNext s item fuel) else return []

/-- Items up to the sign `close`, which is taken; there are at most `fuel` of them. -/
def upTo {α : Type} (close : Sign) (item : Parser α) : Nat → Parser (List α)
  | 0 => stuck
  | fuel + 1 => do
    if ← signIfNext close then return [] else return (← item) :: (← upTo close item fuel)

/-- The number of tokens that are left. -/
def remaining : Parser Nat := fun ts => .ok (ts.length, ts)

/-- Any number of items that each start with the sign `s`. -/
def manyFrom {α : Type} (s : Sign) (item : Parser α) : Parser (List α) := do
  whileNext s item (← remaining)

/-- Any number of items in brackets. -/
def bracketed {α : Type} (opening closing : Sign) (item : Parser α) : Parser (List α) := do
  sign opening
  upTo closing item (← remaining)

/-- One or more items in brackets. -/
def bracketed1 {α : Type} (opening closing : Sign) (item : Parser α) : Parser (List α) := do
  sign opening
  let first ← item
  return first :: (← upTo closing item (← remaining))

/-- One or more items with the sign `separator` between them. -/
def separated {α : Type} (separator : Sign) (item : Parser α) : Parser (List α) := do
  let first ← item
  return first :: (← manyFrom separator (do sign separator; item))

/-- What `production` reads with one level of nesting less, if a level is free. -/
def nested {α : Type} (depth : Nat) (production : Nat → Parser α) : Parser α :=
  match depth with
  | 0 => stuck
  | depth + 1 => production depth

/-- One or more items in brackets if the opening bracket comes next, else none. -/
def optionalBlock {α : Type} (depth : Nat) (opening closing : Sign) (item : Nat → Parser α) :
    Parser (List α) := do
  if ← nextIs opening then nested depth fun d => bracketed1 opening closing (item d) else return []

/-! ## Types -/

/-- The exclamation mark that may follow a type. -/
def nonNullIfNext (type : TypeRef) : Parser TypeRef := do
  if ← signIfNext .bang then return .nonNull type else return type

def typeRef : Nat → Parser TypeRef
  | 0 => do nonNullIfNext (.named (← name))
  | depth + 1 => do
    if ← signIfNext .openBracket then
      let item ← typeRef depth
      sign .closeBracket
      nonNullIfNext (.list item)
    else nonNullIfNext (.named (← name))

/-! ## Values -/

/-- The value that a name stands for. -/
def valueOfName (text : String) : Value :=
  if text = "true" then .boolean true
  else if text = "false" then .boolean false
  else if text = "null" then .null
  else .enum text

def member (value : Parser Value) : Parser (String × Value) := do
  let key ← name
  sign .colon
  return (key, ← value)

/-- A value that is a single token. -/
def simpleValue : Parser Value := fun
  | .name text :: ts => .ok (valueOfName text, ts)
  | .int n :: ts => .ok (.int n, ts)
  | .float x :: ts => .ok (.float x, ts)
  | .string text :: ts => .ok (.string text, ts)
  | ts => .error ts

/-- A value; `allowed` says whether variables may stand in it. -/
def value (allowed : Bool) : Nat → Parser Value
  | 0 => do
    if allowed then
      if ← signIfNext .dollar then return .variable (← name)
    simpleValue
  | depth + 1 => do
    if allowed then
      if ← signIfNext .dollar then return .variable (← name)
    -- Only lists and objects take a level of nesting.
    if ← nextIs .openBracket then
      return .list (← bracketed .openBracket .closeBracket (value allowed depth))
    if ← nextIs .openBrace then
      return .ofMembers (← bracketed .openBrace .closeBrace (member (value allowed depth)))
    simpleValue

/-! ## Directives -/

/-- The arguments of a directive or of a selected field, in parentheses. -/
def arguments (depth : Nat) : Parser (List (String × Value)) :=
  optionalBlock depth .openParen .closeParen fun d => member (value true d)

def directives (depth : Nat) : Parser (List Directive) :=
  manyFrom .at do
    sign .at
    let name ← name
    return ⟨name, ← arguments depth⟩

end Parser

/-! ## Reading a text -/

/-- The place of the first token of `rest`, a row that ends the tokens of `scan`. -/
def Lexer.Scan.placeOf (scan : Scan) (rest : List Token) : Position :=
  match scan.tokens.drop (scan.tokens.length - rest.length) with
  | (_, place) :: _ => place
  | [] => scan.stop

/-- Reads a whole text. The error is the place of the first token that cannot continue it, where the
end of the text counts as a token. -/
def Parser.runOn {α : Type} (parser : Parser α) (text : String) : Except Position α :=
  let scan := Lexer.scan text
  match parser.run (scan.tokens.map (·.1)) with
  -- The tokens may end before the text does, where no token starts.
  | .ok (a, []) => if scan.complete then .ok a else .error scan.stop
  | .ok (_, rest) => .error (scan.placeOf rest)
  | .error rest => .error (scan.placeOf rest)

end Supergraph
