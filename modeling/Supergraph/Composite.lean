import Supergraph.Http
import Supergraph.Namespace
import Supergraph.Rename

/-!
# Composites

A `Composite` is what one backend contributes to an application: a schema text, the data sources
that resolve its fields, and the configurations of its fields and types. Its parts name the same
types and fields, and are changed only together. The payload of a data source depends on the kind of
the backend; `AnyPayload` collects composites of different kinds.
-/

namespace Supergraph

/-- Kinds of data sources. -/
inductive DataSourceKind where
  | static
  | rest
  | graphql
  | postgresql
  | mysql
  | sqlserver
  | mongodb
  | sqlite
deriving DecidableEq, Repr, Inhabited

/-- Something that resolves fields. -/
structure DataSource (Payload : Type) where
  id : Option String
  kind : DataSourceKind
  rootNodes : NodeList
  childNodes : NodeList
  payload : Payload
  directives : List DirectiveMapping
  requestTimeoutSeconds : UInt64
deriving DecidableEq, Repr, Inhabited

/-- What one backend contributes to an application. -/
structure Composite (Payload : Type) where
  flushIntervalMillis : UInt64
  schema : String
  dataSources : List (DataSource Payload)
  fields : List FieldConfig
  types : List TypeMapping
  jsonVariableTypes : List String
deriving DecidableEq, Repr, Inhabited

/-! ## Payloads -/

/-- What a service of a federation shows of itself. -/
structure FederationPayload where
  enabled : Bool
  serviceSdl : String
deriving DecidableEq, Repr, Inhabited

/-- How subscriptions reach a GraphQL server. -/
structure GraphQLSubscription where
  enabled : Bool
  url : EngineVariable
  useSse : Bool
deriving DecidableEq, Repr, Inhabited

/-- The payload of a GraphQL server. -/
structure GraphQLPayload where
  federation : FederationPayload
  fetch : Fetch
  subscription : GraphQLSubscription
  backendSchema : String
deriving DecidableEq, Inhabited

/-- How a REST service is polled for subscriptions. -/
structure RestSubscription where
  enabled : Bool
  pollingIntervalMillis : Option UInt64
  skipSameResponse : Option Bool
deriving DecidableEq, Repr, Inhabited

/-- The type of the responses with a status code. -/
structure StatusCodeType where
  statusCode : UInt16
  typeName : String
  injectStatusCode : Bool
deriving DecidableEq, Repr, Inhabited

/-- The payload of a REST service. -/
structure RestPayload where
  fetch : Fetch
  subscription : RestSubscription
  defaultTypeName : String
  statusCodeTypes : List StatusCodeType
deriving DecidableEq, Inhabited

/-- The payload of a database. -/
structure DatabasePayload where
  prismaSchema : String
  graphqlSchema : String
  databaseUrl : EngineVariable
  jsonFields : List Coordinate
  jsonVariableTypes : List String
deriving DecidableEq, Repr, Inhabited

/-- The payload of a backend of any kind. -/
inductive AnyPayload where
  | graphql (payload : GraphQLPayload)
  | rest (payload : RestPayload)
  | database (payload : DatabasePayload)
deriving DecidableEq, Inhabited

/-- The payload of a server that nothing is known about. -/
def GraphQLPayload.blank : GraphQLPayload :=
  ⟨⟨false, ""⟩, .blank, ⟨false, .static "", false⟩, ""⟩

def RestPayload.blank : RestPayload := ⟨.blank, ⟨false, none, none⟩, "", []⟩

def DatabasePayload.blank : DatabasePayload := ⟨"", "", .static "", [], []⟩

/-! ## Operations -/

def DataSource.mapPayload {α β : Type} (f : α → β) (source : DataSource α) : DataSource β :=
  { source with payload := f source.payload }

def DataSource.mapNodes {α : Type} (f : NodeList → NodeList) (source : DataSource α) :
    DataSource α :=
  { source with rootNodes := f source.rootNodes, childNodes := f source.childNodes }

namespace Composite

variable {α β : Type}

/-- How often streamed responses are sent on, unless said otherwise. -/
def defaultFlushIntervalMillis : UInt64 := 500

/-- The composite with the default flush interval. -/
def make (schema : String) (dataSources : List (DataSource α)) (fields : List FieldConfig)
    (types : List TypeMapping) (jsonVariableTypes : List String) : Composite α :=
  ⟨defaultFlushIntervalMillis, schema, dataSources, fields, types, jsonVariableTypes⟩

def mapPayload (f : α → β) (composite : Composite α) : Composite β :=
  { composite with dataSources := composite.dataSources.map (·.mapPayload f) }

/-- The composite after renaming types, in the schema, the nodes and the field configurations. -/
def renameTypes (renames : List TypeRename) (composite : Composite α) :
    Except Error (Composite α) := do
  return { composite with
    schema := ← TypeRename.applyToSchema renames composite.schema
    dataSources := composite.dataSources.map (·.mapNodes (TypeRename.applyToNodes renames))
    fields := TypeRename.applyToFieldConfigs renames composite.fields }

/-- The composite after renaming fields, in the schema, the nodes and the field configurations. -/
def renameFields (renames : List FieldRename) (composite : Composite α) :
    Except Error (Composite α) := do
  return { composite with
    schema := ← FieldRename.applyToSchema renames composite.schema
    dataSources := composite.dataSources.map (·.mapNodes (FieldRename.applyToNodes renames))
    fields := FieldRename.applyToFieldConfigs renames composite.fields }

/-- A composite with a schema and nothing to resolve it. -/
def mock (sdl : String) (apiNamespace : Option String) : Except Error (Composite α) := do
  let schema ← normalizeSchema sdl
  return make (← (Namespace.ofName apiNamespace []).applyToSchema schema) [] [] [] []

end Composite

end Supergraph
