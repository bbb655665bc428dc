import Supergraph.Nodes

/-!
# Field configurations

What the execution engine has to know about single fields: how arguments are sent, where the field
is found in a response, and which other fields it needs. A well-formed list has one configuration
per field, with one argument configuration per argument name and no repeated required field; the
operations here keep it so.
-/

namespace Supergraph

/-- Where the value of an argument comes from. -/
inductive ArgumentSource where
  | fieldArgument
  | objectField
deriving DecidableEq, Repr, Inhabited

/-- How the value of an argument is sent. -/
inductive ArgumentRendering where
  | default
  | graphqlValue
  | arrayCsv
deriving DecidableEq, Repr, Inhabited

/-- How one argument of a field is sent. The source path counts only for an object field. -/
structure ArgumentConfig where
  name : String
  source : ArgumentSource
  sourcePath : List String
  rendering : ArgumentRendering
  renameTypeTo : String
deriving DecidableEq, Repr, Inhabited

namespace ArgumentConfig

/-- An argument whose value is the argument of the field. -/
def fieldArgument (name : String) : ArgumentConfig := ⟨name, .fieldArgument, [], .default, ""⟩

/-- An argument whose value is found at a path in the object that holds the field. -/
def objectField (name : String) (path : List String) : ArgumentConfig :=
  ⟨name, .objectField, path, .default, ""⟩

/-- Puts an argument in the place of the one with its name, or at the end. -/
def upsert (argument : ArgumentConfig) : List ArgumentConfig → List ArgumentConfig
  | [] => [argument]
  | other :: rest =>
    if other.name = argument.name then argument :: rest else other :: upsert argument rest

end ArgumentConfig

/-- What the engine has to know about one field. -/
structure FieldConfig where
  typeName : String
  fieldName : String
  disableDefaultMapping : Bool
  path : List String
  arguments : List ArgumentConfig
  requires : List String
  unescapeJson : Bool
deriving DecidableEq, Repr, Inhabited

namespace FieldConfig

/-- The field a configuration is for. -/
def coordinate (config : FieldConfig) : Coordinate := ⟨config.typeName, config.fieldName⟩

/-- A configuration that says nothing. -/
def blank (field : Coordinate) : FieldConfig :=
  ⟨field.typeName, field.fieldName, false, [], [], [], false⟩

/-- Puts an argument in the place of the one with its name, or at the end. -/
def upsertArgument (argument : ArgumentConfig) (config : FieldConfig) : FieldConfig :=
  { config with arguments := argument.upsert config.arguments }

/-- Adds a required field, unless it is listed. -/
def require (fieldName : String) (config : FieldConfig) : FieldConfig :=
  if config.requires.contains fieldName then config
  else { config with requires := config.requires ++ [fieldName] }

/-- Adds required fields one after the other. -/
def requireAll (fieldNames : List String) (config : FieldConfig) : FieldConfig :=
  fieldNames.foldl (fun config fieldName => config.require fieldName) config

/-- Joins what another configuration of the field says. Flags that are set stay set, the first path
that is not empty counts, and so does the last configuration of an argument. -/
def absorb (other config : FieldConfig) : FieldConfig :=
  let joined := { config with
    disableDefaultMapping := config.disableDefaultMapping || other.disableDefaultMapping
    unescapeJson := config.unescapeJson || other.unescapeJson
    path := if config.path.isEmpty then other.path else config.path }
  requireAll other.requires
    (other.arguments.foldl (fun config argument => config.upsertArgument argument) joined)

/-- Changes the configuration of a field, which is blank and at the end if there is none. -/
def update (field : Coordinate) (change : FieldConfig → FieldConfig) :
    List FieldConfig → List FieldConfig
  | [] => [change (blank field)]
  | config :: rest =>
    if config.coordinate = field then change config :: rest
    else config :: update field change rest

/-- Joins the configurations of another list, one after the other. -/
def merge (configs others : List FieldConfig) : List FieldConfig :=
  others.foldl (fun configs other => update other.coordinate other.absorb configs) configs

end FieldConfig

/-- The name that a type has in the backend's own schema. -/
structure TypeMapping where
  typeName : String
  renameTo : String
deriving DecidableEq, Repr, Inhabited

/-- The name that a directive has in the backend's own schema. -/
structure DirectiveMapping where
  directiveName : String
  renameTo : String
deriving DecidableEq, Repr, Inhabited

end Supergraph
