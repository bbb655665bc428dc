import Supergraph.FieldConfig
import Supergraph.FieldSet
import Supergraph.RootTypes

/-!
# Root and child nodes

A field is a *root node* if a request can start at it, and a *child node* if it is reached from its
object. The fields of root types are root nodes. An *entity* is a container with a `key` directive;
it can be fetched by its key, so its fields are root nodes too, and those beside the key require the
key. An extended entity belongs to another service: its fields are no child nodes, all of them
require the key, and a field marked `external` only stands for the field of that service, which
counts as a child node if it is part of the key.

`classify` goes through the containers of a document in order. The configuration of a field lists
its arguments and the fields it requires.
-/

namespace Supergraph

/-- The type that an argument is sent with. -/
structure ArgumentRetyping where
  typeName : String
  fieldName : String
  argumentName : String
  renameTypeTo : String
deriving DecidableEq, Repr, Inhabited

/-- The nodes of a document and the configurations of its fields. -/
structure Classification where
  rootNodes : NodeList
  childNodes : NodeList
  fields : List FieldConfig
  types : List TypeMapping
deriving DecidableEq, Repr, Inhabited

namespace Container

/-- Whether a directive called `name` is among `directives`. -/
def carries (directives : List Directive) (name : String) : Bool :=
  directives.any (·.name = name)

/-- Whether a container extends a type of another service, by its keyword or by a directive. -/
def extendsType (container : Container) : Bool :=
  container.isExtension || carries container.directives "extends"

/-- Whether the objects of a container are entities. -/
def isEntity (container : Container) : Bool := carries container.directives "key"

/-- The fields that a `key` directive selects at the top level. -/
def keyOf (directive : Directive) : Except Error (List String) :=
  if directive.name = "key" then
    match directive.stringArgument? "fields" with
    | some text => (FieldSet.parse text).map FieldSet.names
    -- A key without a text selects nothing, and that is no error.
    | none => .ok []
  else .ok []

/-- The fields that the `key` directives select, one directive after the other. -/
def keysOf : List Directive → Except Error (List String)
  | [] => .ok []
  | directive :: rest => do
    let first ← keyOf directive
    return first ++ (← keysOf rest)

/-- The fields of the keys of a container. -/
def keys (container : Container) : Except Error (List String) := keysOf container.directives

end Container

/-- Whether a field is provided by another service. A mark on one of its arguments counts too. -/
def Field.isExternal (field : Field) : Bool :=
  field.arguments.any (fun argument => Container.carries argument.directives "external") ||
    Container.carries field.directives "external"

namespace Classification

/-- The classification of a document without containers. -/
def empty : Classification := ⟨[], [], [], []⟩

def addRoot (condition : Bool) (field : Coordinate) (c : Classification) : Classification :=
  if condition then { c with rootNodes := c.rootNodes.insert field } else c

def addChild (condition : Bool) (field : Coordinate) (c : Classification) : Classification :=
  if condition then { c with childNodes := c.childNodes.insert field } else c

/-- Makes a field require others if `condition` holds. Without others nothing is configured. -/
def addRequired (condition : Bool) (field : Coordinate) (others : List String)
    (c : Classification) : Classification :=
  if condition ∧ others ≠ [] then
    { c with fields := FieldConfig.update field (FieldConfig.requireAll others) c.fields }
  else c

/-- How an argument is sent, with the type of the first retyping that is for it. -/
def argumentConfig (retypings : List ArgumentRetyping) (field : Coordinate)
    (argumentName : String) : ArgumentConfig :=
  let isFor := fun r : ArgumentRetyping =>
    r.typeName = field.typeName ∧ r.fieldName = field.fieldName ∧ r.argumentName = argumentName
  match retypings.find? (isFor ·) with
  | some retyping => { ArgumentConfig.fieldArgument argumentName with
      renameTypeTo := retyping.renameTypeTo }
  | none => .fieldArgument argumentName

def addArguments (retypings : List ArgumentRetyping) (field : Coordinate)
    (arguments : List InputField) (c : Classification) : Classification :=
  let configure := fun fields (argument : InputField) =>
    FieldConfig.update field
      (FieldConfig.upsertArgument (argumentConfig retypings field argument.name)) fields
  { c with fields := arguments.foldl configure c.fields }

/-- What a container says about each of its fields. -/
structure Context where
  typeName : String
  isRoot : Bool
  isExtension : Bool
  isEntity : Bool
  keys : List String

def addField (retypings : List ArgumentRetyping) (context : Context) (c : Classification)
    (field : Field) : Classification :=
  let coordinate : Coordinate := ⟨context.typeName, field.name⟩
  let own := ! field.isExternal
  let isKey := context.keys.contains field.name
  let extended := context.isExtension && context.isEntity && own
  c |> addArguments retypings coordinate field.arguments
    |> addRoot (context.isRoot || (context.isEntity && own)) coordinate
    |> addRequired (extended || (context.isEntity && own && ! isKey)) coordinate context.keys
    -- What another service provides is reached from its object only as part of the key.
    |> addChild ((own && ! context.isRoot && ! extended) || (! own && isKey)) coordinate

def addContainer (roots : RootTypes) (retypings : List ArgumentRetyping) (c : Classification)
    (container : Container) : Except Error Classification := do
  let context : Context := {
    typeName := container.name
    isRoot := roots.isRoot container.name
    isExtension := container.extendsType
    isEntity := container.isEntity
    keys := ← container.keys }
  return container.fields.foldl (addField retypings context) c

end Classification

/-- Classifies the fields of a schema, or of the document a service of a federation shows of itself.
The first key that cannot be read makes the classification fail. -/
def classify (schema : Document) (service : Option Document) (retypings : List ArgumentRetyping) :
    Except Error Classification :=
  let document := service.getD schema
  document.containers.foldlM
    (Classification.addContainer (RootTypes.ofDocument document) retypings) .empty

end Supergraph
