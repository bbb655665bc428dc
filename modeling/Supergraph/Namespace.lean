import Supergraph.FieldConfig
import Supergraph.RootTypes
import Supergraph.Schema.Fields
import Supergraph.Schema.TypeNames

/-!
# Namespaces

Every name that comes from one backend is prefixed with the namespace of the backend, so that
several backends fit into one schema. Root types are shared by all and keep their names; their
fields are prefixed instead, except for skipped ones, and the configuration of a prefixed field
points back at its name in the backend by its path. All other types are prefixed, except for
built-in scalars, and a type mapping points back at their names. Without a namespace nothing
changes.
-/

namespace Supergraph

/-- The namespace of a backend and the root fields that keep their names. -/
structure Namespace where
  name : Option String
  skippedRootFields : List String
deriving DecidableEq, Repr, Inhabited

namespace Namespace

/-- The namespace called `name`. An empty name is none. -/
def ofName (name : Option String) (skippedRootFields : List String) : Namespace :=
  ⟨name.filter (· ≠ ""), skippedRootFields⟩

def isEmpty (ns : Namespace) : Bool := ns.name.isNone

/-- A name with the namespace in front of it. -/
def qualify (ns : Namespace) (name : String) : String :=
  match ns.name with
  | some ns => ns ++ "_" ++ name
  | none => name

/-- Whether a type gets the namespace in front of its name. -/
def qualifiesType (ns : Namespace) (roots : RootTypes) (typeName : String) : Bool :=
  ! ns.isEmpty && ! roots.isRoot typeName && ! isBuiltinScalar typeName

/-- The name of a type in the composed schema. -/
def typeName (ns : Namespace) (roots : RootTypes) (typeName : String) : String :=
  if ns.qualifiesType roots typeName then ns.qualify typeName else typeName

/-- Whether a field of a root type gets the namespace in front of its name. -/
def qualifiesRootField (ns : Namespace) (fieldName : String) : Bool :=
  ! ns.isEmpty && ! ns.skippedRootFields.contains fieldName

/-- The name of a root field in the composed schema. -/
def rootFieldName (ns : Namespace) (fieldName : String) : String :=
  if ns.qualifiesRootField fieldName then ns.qualify fieldName else fieldName

/-- The name of a field of the type `typeName` in the composed schema. -/
def fieldName (ns : Namespace) (roots : RootTypes) (typeName fieldName : String) : String :=
  if roots.isRoot typeName then ns.rootFieldName fieldName else fieldName

/-! ## Schemas -/

/-- The document in the composed schema. Fields are prefixed in a type that has the name of a root
type once types are prefixed. -/
def applyToDocument (ns : Namespace) (document : Document) : Document :=
  let roots := RootTypes.ofDocument document
  (document.mapTypeNames (ns.typeName roots)).mapFields fun typeName field =>
    { field with name := ns.fieldName roots typeName field.name }

/-- The schema text in the composed schema. Without a namespace the text is not even read. -/
def applyToSchema (ns : Namespace) (schema : String) : Except Error String :=
  if ns.isEmpty then .ok schema
  else (parseSchema schema).map fun document => (ns.applyToDocument document).print

/-! ## Nodes and configurations

What was derived from `document`, the backend's own schema, is carried over to the composed one. -/

def applyToNodes (ns : Namespace) (nodes : NodeList) (document : Document) : NodeList :=
  let roots := RootTypes.ofDocument document
  nodes.map fun node =>
    ⟨ns.typeName roots node.typeName, node.fieldNames.map (ns.fieldName roots node.typeName)⟩

/-- The configuration in the composed schema. One of a prefixed root field points back at its name.
-/
def applyToFieldConfig (ns : Namespace) (roots : RootTypes) (config : FieldConfig) : FieldConfig :=
  if roots.isRoot config.typeName then
    if ns.qualifiesRootField config.fieldName then
      -- A path that is there is given up, and required fields keep their names.
      { config with path := [config.fieldName], fieldName := ns.qualify config.fieldName }
    else config
  else { config with typeName := ns.typeName roots config.typeName }

/-- The fields of the root types that are objects, in document order. -/
def rootFields (roots : RootTypes) (document : Document) : List Coordinate :=
  (document.containers.filter fun c => c.kind = .object ∧ roots.isRoot c.name).flatMap fun c =>
    c.fields.map fun field => ⟨c.name, field.name⟩

/-- Adds a configuration that points back at the name of a prefixed root field, unless there is one
for the field. -/
def addRootField (ns : Namespace) (configs : List FieldConfig) (field : Coordinate) :
    List FieldConfig :=
  let composed : Coordinate := ⟨field.typeName, ns.qualify field.fieldName⟩
  if ns.qualifiesRootField field.fieldName ∧ ! configs.any (·.coordinate = composed) then
    configs ++ [{ FieldConfig.blank composed with path := [field.fieldName] }]
  else configs

/-- The configurations in the composed schema, where every prefixed root field has one. -/
def applyToFieldConfigs (ns : Namespace) (configs : List FieldConfig) (document : Document) :
    List FieldConfig :=
  let roots := RootTypes.ofDocument document
  (rootFields roots document).foldl ns.addRootField (configs.map (ns.applyToFieldConfig roots))

/-- Adds the mapping of a type that is prefixed, unless there is one. -/
def addTypeMapping (ns : Namespace) (roots : RootTypes) (mappings : List TypeMapping)
    (typeName : String) : List TypeMapping :=
  if ns.qualifiesType roots typeName ∧ ! mappings.any (·.typeName = ns.qualify typeName) then
    mappings ++ [⟨ns.qualify typeName, typeName⟩]
  else mappings

/-- One mapping for each type that is prefixed. -/
def typeMappings (ns : Namespace) (document : Document) : List TypeMapping :=
  document.declaredNames.foldl (ns.addTypeMapping (RootTypes.ofDocument document)) []

/-! ## Names that a collaborator gives

These name types that are never roots or scalars, and are prefixed as they are. -/

def applyToTypeMappings (ns : Namespace) (mappings : List TypeMapping) : List TypeMapping :=
  mappings.map fun mapping => { mapping with typeName := ns.qualify mapping.typeName }

def applyToTypeNames (ns : Namespace) (typeNames : List String) : List String :=
  typeNames.map ns.qualify

def applyToCoordinates (ns : Namespace) (fields : List Coordinate) : List Coordinate :=
  fields.map fun field => { field with typeName := ns.qualify field.typeName }

end Namespace

end Supergraph
