import Supergraph.Language.Value

/-!
# Tokens

The words of documents: names, signs and literals. A literal token already holds its value, so a
string with an unknown escape or an integer beyond 64 bits is no token at all.
-/

namespace Supergraph

/-- The signs of the language. -/
inductive Sign where
  | openParen | closeParen | openBracket | closeBracket | openBrace | closeBrace
  | bang | dollar | colon | equals | at | pipe | ampersand | spread
deriving DecidableEq, Repr, Inhabited

/-- A word of a document. -/
inductive Token where
  | name (text : String)
  | sign (sign : Sign)
  | int (value : Int)
  | float (value : Float64)
  | string (text : String)
deriving DecidableEq, Repr, Inhabited

/-- A place in a text, both counts starting at one. -/
structure Position where
  line : Nat
  column : Nat
deriving DecidableEq, Repr, Inhabited

namespace Position

def start : Position := ⟨1, 1⟩

def newline (p : Position) : Position := ⟨p.line + 1, 1⟩

/-- The place `columns` further to the right. -/
def right (p : Position) (columns : Nat) : Position := ⟨p.line, p.column + columns⟩

/-- The place after a token that is written `text`. -/
def after (p : Position) (text : List Char) : Position :=
  text.foldl (fun p c => if c = '\n' then p.newline else p.right 1) p

end Position

end Supergraph
