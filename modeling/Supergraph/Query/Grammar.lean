import Supergraph.Language.Grammar
import Supergraph.Query.Document

/-!
# Reading query documents

The grammar of query documents. A selection that starts with a name may have a label in front of the
name it selects; one that starts with `...` spreads a fragment, or selects inside one.
-/

namespace Supergraph.Query

open Supergraph.Parser

/-! ## Selections -/

/-- A field selection, given how nested selections are read. -/
def fieldSelection (depth : Nat) (selectionSet : Parser (List Selection)) : Parser Selection := do
  let first ← name
  -- Before a colon the first name was a label.
  let (label, name) ← (do
    if ← signIfNext .colon then return (some first, ← name) else return (none, first))
  let arguments ← arguments depth
  let directives ← directives depth
  let selections ← (do if ← nextIs .openBrace then selectionSet else return [])
  return .field label name arguments directives selections

/-- A selection behind `...`, given how nested selections are read. -/
def fragmentSelection (depth : Nat) (selectionSet : Parser (List Selection)) :
    Parser Selection := do
  match ← peek with
  | some (.name "on") =>
    skip
    let type ← name
    let directives ← directives depth
    return .fragment (some type) directives (← selectionSet)
  -- Every other name is that of a fragment.
  | some (.name name) => skip; return .spread name (← directives depth)
  | _ =>
    let directives ← directives depth
    return .fragment none directives (← selectionSet)

/-- An item of a selection set, given how nested selections are read. -/
def selection (depth : Nat) (selectionSet : Parser (List Selection)) : Parser Selection := do
  if ← signIfNext .spread then fragmentSelection depth selectionSet
  else fieldSelection depth selectionSet

def selectionSet : Nat → Parser (List Selection)
  | 0 => stuck
  | depth + 1 => bracketed1 .openBrace .closeBrace (selection depth (selectionSet depth))

/-! ## Definitions -/

def variableDefinition (depth : Nat) : Parser VariableDefinition := do
  sign .dollar
  let name ← name
  sign .colon
  let type ← typeRef depth
  if ← signIfNext .equals then return ⟨name, type, some (← value false depth)⟩
  else return ⟨name, type, none⟩

/-- An operation after its keyword. -/
def operation (depth : Nat) (type : OperationType) : Parser Executable := do
  let name ← (do
    match ← peek with
    | some (.name name) => skip; return some name
    | _ => return none)
  let parameters ← optionalBlock depth .openParen .closeParen variableDefinition
  let directives ← directives depth
  return .operation type name parameters directives (← selectionSet depth)

/-- A fragment definition after its keyword. -/
def fragment (depth : Nat) : Parser Executable := do
  let name ← name
  keyword "on"
  let type ← Parser.name
  let directives ← directives depth
  return .fragment name type directives (← selectionSet depth)

def definition (depth : Nat) : Parser Executable := do
  match ← peek with
  | some (.sign .openBrace) => return .selections (← selectionSet depth)
  | some (.name "query") => skip; operation depth .query
  | some (.name "mutation") => skip; operation depth .mutation
  | some (.name "subscription") => skip; operation depth .subscription
  | some (.name "fragment") => skip; fragment depth
  | _ => stuck

/-- Definitions up to the end of the tokens; there are at most `fuel` of them. -/
def definitions (depth : Nat) : Nat → Parser (List Executable)
  | 0 => pure []
  | fuel + 1 => do
    match ← peek with
    | none => return []
    | some _ => return (← definition depth) :: (← definitions depth fuel)

/-- The selections of the first definition, which stands in braces without a keyword, in a document
of one or more definitions. -/
def leadingSelections : Parser (List Selection) := do
  let selections ← selectionSet nestingLimit
  let _ ← definitions nestingLimit (← remaining)
  return selections

end Supergraph.Query
