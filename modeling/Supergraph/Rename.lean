import Supergraph.FieldConfig
import Supergraph.FieldSet
import Supergraph.Schema.Fields
import Supergraph.Schema.TypeNames

/-!
# Renaming types and fields

Renames are given as a list, applied all at once: the first rename that matches a name counts, and
no name is renamed twice. They reach the schema text and everything that was derived from it.

Renaming fields also renames them in the field sets of federation directives. `key` and `requires`
select fields of the type they stand on, `provides` selects fields of the type that its field
returns. Only the top level of a field set is renamed, and a set in which nothing is renamed stays
as it is written.
-/

namespace Supergraph

/-- A new name for a type. -/
structure TypeRename where
  source : String
  target : String
deriving DecidableEq, Repr, Inhabited

/-- A new name for a field of a type. -/
structure FieldRename where
  typeName : String
  source : String
  target : String
deriving DecidableEq, Repr, Inhabited

namespace TypeRename

/-- The new name of a type, if it is renamed. -/
def find? (renames : List TypeRename) (typeName : String) : Option String :=
  (renames.find? (·.source = typeName)).map (·.target)

def apply (renames : List TypeRename) (typeName : String) : String :=
  (find? renames typeName).getD typeName

/-- The schema text after the renames. Without renames the text is not even read. -/
def applyToSchema (renames : List TypeRename) (schema : String) : Except Error String :=
  if renames.isEmpty then .ok schema
  else (parseSchema schema).map fun document => (document.mapTypeNames (apply renames)).print

def applyToNodes (renames : List TypeRename) (nodes : NodeList) : NodeList :=
  nodes.map fun node => { node with typeName := apply renames node.typeName }

def applyToFieldConfigs (renames : List TypeRename) (configs : List FieldConfig) :
    List FieldConfig :=
  configs.map fun config => { config with typeName := apply renames config.typeName }

end TypeRename

namespace FieldRename

/-- The new name of a field, if it is renamed. -/
def find? (renames : List FieldRename) (typeName fieldName : String) : Option String :=
  (renames.find? fun r => r.typeName = typeName ∧ r.source = fieldName).map (·.target)

def apply (renames : List FieldRename) (typeName fieldName : String) : String :=
  (find? renames typeName fieldName).getD fieldName

/-! ## Field sets -/

/-- A field set that selects fields of `typeName`, after the renames. -/
def applyToFieldSet (renames : List FieldRename) (typeName : String) (fields : FieldSet) :
    FieldSet :=
  fields.map fun field => .mk (apply renames typeName field.name) field.nested

/-- The text of a field set after the renames. -/
def applyToFieldSetText (renames : List FieldRename) (typeName text : String) :
    Except Error String := do
  let fields ← FieldSet.parse text
  if fields.any fun field => (find? renames typeName field.name).isSome then
    return (applyToFieldSet renames typeName fields).print
  else return text

/-- The arguments of a directive after the renames: every text called `fields` is a field set. -/
def applyToArguments (renames : List FieldRename) (typeName : String) :
    List (String × Value) → Except Error (List (String × Value))
  | [] => .ok []
  | (name, value) :: rest => do
    let value ← (match name, value with
      | "fields", .string text => (applyToFieldSetText renames typeName text).map Value.string
      | _, value => .ok value)
    return (name, value) :: (← applyToArguments renames typeName rest)

/-- A directive whose field set selects fields of `typeName`, after the renames. -/
def applyToDirective (renames : List FieldRename) (typeName : String) (directive : Directive) :
    Except Error Directive := do
  return { directive with arguments := ← applyToArguments renames typeName directive.arguments }

/-- The type whose fields a directive on a field selects, given the type that holds the field. -/
def selectedType? (typeName : String) (field : Field) (directive : Directive) : Option String :=
  if directive.name = "requires" then some typeName
  else if directive.name = "provides" then some field.type.inner
  else none

/-- A directive on a field after the renames. -/
def applyToFieldDirective (renames : List FieldRename) (typeName : String) (field : Field)
    (directive : Directive) : Except Error Directive :=
  match selectedType? typeName field directive with
  | some selected => applyToDirective renames selected directive
  | none => .ok directive

/-- A directive on a container after the renames. -/
def applyToTypeDirective (renames : List FieldRename) (typeName : String) (directive : Directive) :
    Except Error Directive :=
  if directive.name = "key" then applyToDirective renames typeName directive else .ok directive

/-! ## Schemas

All field sets are read, also after one that cannot be, and the last failure is reported. -/

/-- The results of all items, or the last failure among them. -/
def allOrLast {α : Type} : List (Except Error α) → Except Error (List α)
  | [] => .ok []
  | item :: rest =>
    match item, allOrLast rest with
    | _, .error error => .error error
    | .error error, .ok _ => .error error
    | .ok a, .ok as => .ok (a :: as)

def applyToField (renames : List FieldRename) (typeName : String) (field : Field) :
    Except Error Field := do
  let directives ← allOrLast (field.directives.map (applyToFieldDirective renames typeName field))
  return { field with name := apply renames typeName field.name, directives := directives }

/-- A type declaration after the renames. The field sets of its fields come before its own. -/
def applyToDeclaration (renames : List FieldRename) (declaration : TypeDeclaration) :
    Except Error TypeDeclaration :=
  match declaration.body with
  | .container kind interfaces fields =>
    let fields := allOrLast (fields.map (applyToField renames declaration.name))
    let directives := allOrLast
      (declaration.directives.map (applyToTypeDirective renames declaration.name))
    match fields, directives with
    -- The directives of the type are read last, so their failure counts.
    | _, .error error => .error error
    | .error error, .ok _ => .error error
    | .ok fields, .ok directives => .ok
      { declaration with directives := directives, body := .container kind interfaces fields }
  | _ => .ok declaration

def applyToDefinition (renames : List FieldRename) : Definition → Except Error Definition
  | .type description declaration =>
    (applyToDeclaration renames declaration).map (.type description)
  | .extension declaration => (applyToDeclaration renames declaration).map .extension
  | definition => .ok definition

def applyToDocument (renames : List FieldRename) (document : Document) : Except Error Document :=
  (allOrLast (document.definitions.map (applyToDefinition renames))).map Document.mk

/-- The schema text after the renames. Without renames the text is not even read. -/
def applyToSchema (renames : List FieldRename) (schema : String) : Except Error String := do
  if renames.isEmpty then return schema
  let document ← parseSchema schema
  return (← applyToDocument renames document).print

/-! ## Nodes and configurations -/

def applyToNodes (renames : List FieldRename) (nodes : NodeList) : NodeList :=
  nodes.map fun node =>
    { node with fieldNames := node.fieldNames.map (apply renames node.typeName) }

/-- An argument configuration of the type `typeName` after the renames. -/
def applyToArgumentConfig (renames : List FieldRename) (typeName : String)
    (argument : ArgumentConfig) : ArgumentConfig :=
  match argument.source with
  | .objectField => { argument with sourcePath := argument.sourcePath.map (apply renames typeName) }
  | .fieldArgument => argument

/-- The path of a renamed field, with the new name for the old one. -/
def applyToPath (source target : String) (path : List String) : List String :=
  path.map fun item => if item = source then target else item

/-- A configuration after the renames. The required fields and the source paths of object fields
name fields of its type, and the path names the field itself. -/
def applyToFieldConfig (renames : List FieldRename) (config : FieldConfig) : FieldConfig :=
  let renamed := { config with
    requires := config.requires.map (apply renames config.typeName)
    arguments := config.arguments.map (applyToArgumentConfig renames config.typeName) }
  match find? renames config.typeName config.fieldName with
  | some target => { renamed with
      fieldName := target
      path := applyToPath config.fieldName target config.path }
  | none => renamed

def applyToFieldConfigs (renames : List FieldRename) (configs : List FieldConfig) :
    List FieldConfig :=
  configs.map (applyToFieldConfig renames)

end FieldRename

end Supergraph
