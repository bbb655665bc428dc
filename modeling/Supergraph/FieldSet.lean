import Supergraph.Error
import Supergraph.Query.Grammar

/-!
# Field sets

The directives of a federated schema select fields by a text such as `id sku { upc }`: a
selection set without its braces. A `FieldSet` keeps the names of the selected fields and what is
selected below them; fragments select nothing.

`FieldSet.parse` reads such a text and `FieldSet.print` writes one.
-/

namespace Supergraph

/-- A selected field and what is selected below it. -/
inductive SelectedField where
  | mk (name : String) (nested : List SelectedField)
deriving Repr, Inhabited

/-- The fields that a text selects, in order. -/
abbrev FieldSet := List SelectedField

def SelectedField.name : SelectedField → String
  | mk name _ => name

def SelectedField.nested : SelectedField → FieldSet
  | mk _ nested => nested

mutual

/-- The field that a selection selects, if it is no fragment. -/
def Selection.selectedField? : Selection → Option SelectedField
  | .field _ name _ _ selections => some (.mk name (Selection.selectedFields selections))
  | .spread _ _ => none
  | .fragment _ _ _ => none

/-- The fields that a selection set selects. -/
def Selection.selectedFields : List Selection → FieldSet
  | [] => []
  | selection :: rest =>
    match selection.selectedField? with
    | some selected => selected :: Selection.selectedFields rest
    | none => Selection.selectedFields rest

end

namespace FieldSet

/-- The names selected at the top level. -/
def names (fields : FieldSet) : List String := fields.map (·.name)

/-- The text that a field set is parsed from: the text of the directive in braces. -/
def braced (text : String) : String := "\x7b " ++ text ++ " \x7d"

/-- Reads a field set. Definitions may follow the selection set that the added brace opens. -/
def parse (text : String) : Except Error FieldSet :=
  match Query.leadingSelections.runOn (braced text) with
  | .ok selections => .ok (Selection.selectedFields selections)
  | .error place => .error (.invalidFieldSet text place)

mutual

/-- A field set as it is written in a directive. -/
def print : FieldSet → String
  | [] => ""
  | [field] => printField field
  | field :: rest => printField field ++ " " ++ print rest

/-- A selected field, with what is selected below it in braces. -/
def printField : SelectedField → String
  | .mk name [] => name
  | .mk name nested => name ++ " \x7b " ++ print nested ++ " \x7d"

end

end FieldSet

end Supergraph
