import Supergraph.Backend.GraphQL

/-!
# Databases

A database is introspected by an engine that reports, for each attempt, success or failure together
with a schema text. In the composite every root field has a data source of its own, and the fields
that hold JSON are marked, so that the engine reads their text.
-/

namespace Supergraph

/-- Kinds of databases. -/
inductive DatabaseKind where
  | postgresql
  | mysql
  | planetscale
  | sqlite
  | sqlserver
  | mongodb
deriving DecidableEq, Repr, Inhabited

namespace DatabaseKind

/-- The word for a kind of database. -/
def word : DatabaseKind → String
  | postgresql => "postgresql"
  | mysql => "mysql"
  | planetscale => "planetscale"
  | sqlite => "sqlite"
  | sqlserver => "sqlserver"
  | mongodb => "mongodb"

def all : List DatabaseKind := [postgresql, mysql, planetscale, sqlite, sqlserver, mongodb]

/-- The kind that a word stands for. -/
def parse (text : String) : Except Error DatabaseKind :=
  match all.find? (·.word = text) with
  | some kind => .ok kind
  | none => .error (.unsupported .databaseSchema text)

/-- The kind of the data sources. Planetscale speaks the protocol of MySQL. -/
def dataSourceKind : DatabaseKind → DataSourceKind
  | postgresql => .postgresql
  | mysql => .mysql
  | planetscale => .mysql
  | sqlite => .sqlite
  | sqlserver => .sqlserver
  | mongodb => .mongodb

end DatabaseKind

/-- A database. -/
structure DatabaseBackend where
  settings : BackendSettings
  kind : DatabaseKind
  url : Setting
  apiNamespace : Option String
  skippedRootFields : List String
  schemaExtension : Option String
  scalarReplacements : List ScalarReplacement
deriving DecidableEq, Repr, Inhabited

/-- What the engine reports for one attempt. -/
structure DatabaseReport where
  success : Bool
  message : String
  graphqlSchema : String
  prismaSchema : String
  jsonVariableTypes : List String
  jsonFields : List Coordinate
  jsonResponseFields : List Coordinate
deriving DecidableEq, Repr, Inhabited

/-- The report of an engine that says nothing. -/
def DatabaseReport.blank : DatabaseReport := ⟨false, "", "", "", [], [], []⟩

namespace DatabaseBackend

/-- A database, everything else left to the defaults. -/
def ofUrl (kind : DatabaseKind) (url : Setting) : DatabaseBackend :=
  ⟨.default, kind, url, none, [], none, []⟩

def scope (backend : DatabaseBackend) : Namespace :=
  .ofName backend.apiNamespace backend.skippedRootFields

/-- Marks fields whose text is JSON. -/
def markJson (configs : List FieldConfig) (fields : List Coordinate) : List FieldConfig :=
  fields.foldl (fun configs field =>
    FieldConfig.update field (fun config => { config with unescapeJson := true }) configs) configs

/-- The payload of every data source of a database that serves the schema `served`. -/
def payload (backend : DatabaseBackend) (report : DatabaseReport) (served : String) :
    DatabasePayload where
  prismaSchema := report.prismaSchema
  graphqlSchema := served
  databaseUrl := backend.url.toEngine
  jsonFields := backend.scope.applyToCoordinates report.jsonFields
  jsonVariableTypes := backend.scope.applyToTypeNames report.jsonVariableTypes

/-- The data source of one root field. -/
def dataSource (backend : DatabaseBackend) (payload : DatabasePayload) (document : Document)
    (childNodes : NodeList) (field : Coordinate) : DataSource DatabasePayload where
  id := backend.settings.id
  kind := backend.kind.dataSourceKind
  rootNodes := backend.scope.applyToNodes [.ofFields field.typeName [field.fieldName]] document
  childNodes := backend.scope.applyToNodes childNodes document
  payload := payload
  directives := []
  requestTimeoutSeconds := backend.settings.requestTimeoutSeconds

/-- The composite of a database from a report, whether or not that is one of success. -/
def composite (backend : DatabaseBackend) (report : DatabaseReport) :
    Except Error (Composite DatabasePayload) := do
  let served ← parseSchema (extendSchema report.graphqlSchema backend.schemaExtension)
  let document := ScalarReplacement.applyToDocument backend.scalarReplacements served
  -- What is sent keeps the scalar, which only the served document still has.
  let retypings := ScalarReplacement.retypings backend.scalarReplacements served
  let classification ← classify document none retypings
  let fields := markJson classification.fields (report.jsonFields ++ report.jsonResponseFields)
  let ns := backend.scope
  let payload := backend.payload report served.print
  let sources := classification.rootNodes.coordinates.map
    (backend.dataSource payload document classification.childNodes)
  return .make (← ns.applyToSchema document.print) sources (ns.applyToFieldConfigs fields document)
    (ns.typeMappings document) (ns.applyToTypeNames report.jsonVariableTypes)

end DatabaseBackend

end Supergraph
