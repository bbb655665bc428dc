import Supergraph.Language.Value

/-!
# Query documents

Selections, operations and fragments as they are written. The field sets of a federated schema are
written in this language.
-/

namespace Supergraph

/-- The three kinds of operations. -/
inductive OperationType where
  | query
  | mutation
  | subscription
deriving DecidableEq, Repr, Inhabited

/-- One item of a selection set. -/
inductive Selection where
  | field (label : Option String) (name : String) (arguments : List (String × Value))
      (directives : List Directive) (selections : List Selection)
  | spread (name : String) (directives : List Directive)
  | fragment (type : Option String) (directives : List Directive) (selections : List Selection)
deriving Repr, Inhabited

/-- A variable that an operation declares. -/
structure VariableDefinition where
  name : String
  type : TypeRef
  default : Option Value
deriving Repr, Inhabited

/-- A top-level definition of a query document. -/
inductive Executable where
  | selections (selections : List Selection)
  | operation (type : OperationType) (name : Option String) (parameters : List VariableDefinition)
      (directives : List Directive) (selections : List Selection)
  | fragment (name type : String) (directives : List Directive) (selections : List Selection)
deriving Repr, Inhabited

end Supergraph
