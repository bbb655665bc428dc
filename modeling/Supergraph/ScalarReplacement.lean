import Supergraph.Classification
import Supergraph.Schema.Fields

/-!
# Replacing custom scalars

A custom scalar, such as a JSON column of a database, can be replaced by a concrete type on chosen
fields. The type of the field becomes the replacement's response type, and the arguments typed with
a custom scalar become its input type, if it has one; they are still sent as the scalar. Only
scalars that the document itself declares are replaced.
-/

namespace Supergraph

/-- The types that replace custom scalars on one field. -/
structure ScalarReplacement where
  entityName : String
  fieldName : String
  inputType : Option String
  responseType : String
deriving DecidableEq, Repr, Inhabited

namespace ScalarReplacement

/-- A replacement without an input type. -/
def ofResponse (entityName fieldName responseType : String) : ScalarReplacement :=
  ⟨entityName, fieldName, none, responseType⟩

/-- The first replacement for a field. -/
def find? (replacements : List ScalarReplacement) (typeName fieldName : String) :
    Option ScalarReplacement :=
  replacements.find? fun r => r.entityName = typeName ∧ r.fieldName = fieldName

/-- The scalar that a definition declares, unless every schema has it. -/
def customScalar? : Definition → Option String
  | .type _ ⟨name, _, .scalar⟩ => if isBuiltinScalar name then none else some name
  | _ => none

/-- The custom scalars of a document. -/
def customScalars (document : Document) : List String :=
  document.definitions.filterMap customScalar?

/-- The type with `name` at the bottom of its wrappers, if a custom scalar stands there. -/
def retype (scalars : List String) (name : String) (type : TypeRef) : TypeRef :=
  if scalars.contains type.inner then type.mapInner fun _ => name else type

/-- A field of the type `typeName` with its scalars replaced. -/
def applyToField (scalars : List String) (replacements : List ScalarReplacement)
    (typeName : String) (field : Field) : Field :=
  match find? replacements typeName field.name with
  | none => field
  | some replacement => { field with
      type := retype scalars replacement.responseType field.type
      arguments := match replacement.inputType with
        | none => field.arguments
        | some input =>
          field.arguments.map fun argument =>
            { argument with type := retype scalars input argument.type } }

/-- The document with its scalars replaced. -/
def applyToDocument (replacements : List ScalarReplacement) (document : Document) : Document :=
  document.mapFields (applyToField (customScalars document) replacements)

/-- The arguments of a field whose scalar is replaced, each with that scalar. -/
def fieldRetypings (scalars : List String) (replacements : List ScalarReplacement)
    (typeName : String) (field : Field) : List ArgumentRetyping :=
  match find? replacements typeName field.name with
  | some ⟨_, _, some _, _⟩ =>
    let replaced := field.arguments.filter fun argument => scalars.contains argument.type.inner
    replaced.map fun argument => ⟨typeName, field.name, argument.name, argument.type.inner⟩
  | _ => []

/-- The arguments whose scalar is replaced, in document order. They are still sent as that scalar.
-/
def retypings (replacements : List ScalarReplacement) (document : Document) :
    List ArgumentRetyping :=
  document.containers.flatMap fun container =>
    container.fields.flatMap (fieldRetypings (customScalars document) replacements container.name)

end ScalarReplacement

end Supergraph
