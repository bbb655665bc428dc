import Supergraph.Error
import Supergraph.Schema.Grammar
import Supergraph.Schema.Printer

/-!
# Changing the fields of a document

`Document.mapFields` changes the fields of every container, knowing its name, and leaves everything
else. `parseSchema` reads a schema text as a document, and `normalize` brings a text into the
printed form of its document, so that texts which say the same compare equal.
-/

namespace Supergraph

/-- Changes the fields of a container body. -/
def TypeDeclaration.mapFields (f : String → Field → Field) (declaration : TypeDeclaration) :
    TypeDeclaration :=
  match declaration.body with
  | .container kind interfaces fields =>
    { declaration with body := .container kind interfaces (fields.map (f declaration.name)) }
  | _ => declaration

/-- Changes the fields of every container. -/
def Document.mapFields (f : String → Field → Field) (document : Document) : Document :=
  ⟨document.definitions.map (·.mapDeclaration (·.mapFields f))⟩

/-- Reads a schema text. -/
def parseSchema (text : String) : Except Error Document :=
  match Document.parse text with
  | .ok document => .ok document
  | .error place => .error (.invalidSchema place)

/-- The printed form of the document that a text describes. -/
def normalizeSchema (text : String) : Except Error String := (parseSchema text).map (·.print)

end Supergraph
