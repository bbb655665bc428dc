import Supergraph.Text.Blank

/-!
# Lines of a text

A line ends at a line feed, and a carriage return right before the line feed belongs to the line
end. A last line without any character does not count, so `"a\n"` has one line.
-/

namespace Supergraph.Text

/-- Drops the carriage return that closes a line held in reverse. -/
def dropReturn : List Char → List Char
  | '\r' :: line => line
  | line => line

/-- The lines of `text`, where `line` is the part of the current line already read, in reverse. -/
def linesFrom (line : List Char) : List Char → List (List Char)
  | [] => if line.isEmpty then [] else [line.reverse]
  | '\n' :: text => (dropReturn line).reverse :: linesFrom [] text
  | c :: text => linesFrom (c :: line) text

def lines (text : List Char) : List (List Char) := linesFrom [] text

/-- A line of white space only. -/
def isBlankLine (line : List Char) : Bool := line.all isBlank

/-- Joins lines with line feeds between them. -/
def unlines : List (List Char) → List Char
  | [] => []
  | [line] => line
  | line :: rest => line ++ '\n' :: unlines rest

example : lines "a\r\n\nb\r".toList = ["a".toList, [], "b\r".toList] := by decide
example : lines "a\n".toList = ["a".toList] := by decide

end Supergraph.Text
