import Supergraph.Backend.GraphQL

/-!
# Federations

A federation is made of GraphQL servers, its subgraphs, that extend each other's types. Their
schemas are put one behind the other, without definitions that an earlier one contains in the same
words, and share one namespace; each subgraph gets a data source of its own.
-/

namespace Supergraph

/-- A subgraph of a federation. -/
structure Subgraph where
  name : Option String
  url : Setting
  headers : SortedMap Setting
  credentials : Option Credentials
  certificate : Option ClientCertificate
  subscriptionsUrl : Option Setting
  subscriptionsUseSse : Bool
  inlineSchema : Option String
  schemaExtension : Option String
  scalarReplacements : List ScalarReplacement
deriving DecidableEq, Inhabited

/-- A subgraph at a fixed address, everything else left to the defaults. -/
def Subgraph.ofUrl (url : String) : Subgraph :=
  ⟨none, .literal url, .empty, none, none, none, false, none, none, []⟩

/-- A federation of subgraphs. -/
structure Federation where
  settings : BackendSettings
  subgraphs : List Subgraph
  apiNamespace : Option String
deriving DecidableEq, Inhabited

namespace Federation

/-- A federation, everything else left to the defaults. -/
def ofSubgraphs (subgraphs : List Subgraph) : Federation := ⟨.default, subgraphs, none⟩

/-- A subgraph as a server of its own. One without a name has the id of the federation. -/
def serverOf (federation : Federation) (subgraph : Subgraph) : GraphQLBackend where
  http := {
    settings := { federation.settings with id := subgraph.name.or federation.settings.id }
    apiNamespace := federation.apiNamespace
    headers := subgraph.headers
    credentials := subgraph.credentials
    certificate := subgraph.certificate }
  url := subgraph.url
  baseUrl := none
  path := none
  subscriptionsUrl := subgraph.subscriptionsUrl
  subscriptionsUseSse := subgraph.subscriptionsUseSse
  inlineSchema := subgraph.inlineSchema
  schemaExtension := subgraph.schemaExtension
  isFederation := true
  skippedRootFields := []
  scalarReplacements := subgraph.scalarReplacements

/-- The subgraphs as servers of their own. -/
def servers (federation : Federation) : List GraphQLBackend :=
  federation.subgraphs.map federation.serverOf

/-- The items of the second list behind the first, without those that occur already. -/
def appendNew {α : Type} [DecidableEq α] (items more : List α) : List α :=
  more.foldl (fun items item => if items.contains item then items else items ++ [item]) items

/-- The printed definitions of a schema text, one by one. -/
def printedDefinitions (schema : String) : Except Error (List String) := do
  return (← parseSchema schema).definitions.map Definition.print

/-- The printed form of all schemas together. A definition that occurs again in the same words is
left out. -/
def compose (schemas : List String) : Except Error String := do
  let definitions ← schemas.mapM printedDefinitions
  normalizeSchema (String.intercalate "\n" (appendNew [] definitions.flatten))

/-- The data sources of servers, and their field configurations merged in order. -/
def dataSources (ns : Namespace) (composed : Document) :
    List (GraphQLBackend × PreparedSchema) → List FieldConfig →
      Except Error (List (DataSource GraphQLPayload) × List FieldConfig)
  | [], fields => .ok ([], fields)
  | (server, prepared) :: rest, fields => do
    let (source, own) ← server.dataSource prepared ns composed
    let (sources, fields) ← dataSources ns composed rest (FieldConfig.merge fields own)
    return (source :: sources, fields)

/-- The composite of a federation from the schema texts of its subgraphs, in their order. -/
def composite (federation : Federation) (sdls : List String) :
    Except Error (Composite GraphQLPayload) := do
  let servers := federation.servers
  if servers.isEmpty then
    throw (.introspectionFailed "a federation needs at least one upstream")
  if servers.length ≠ sdls.length then
    throw (.introspectionFailed ("expected " ++ toString servers.length ++ " service SDLs, got " ++
      toString sdls.length))
  let prepared ← (servers.zip sdls).mapM fun (server, sdl) => server.prepare sdl
  let schema ← compose (prepared.map (·.exposed))
  let composed ← parseSchema schema
  let ns := Namespace.ofName federation.apiNamespace []
  let (sources, fields) ← dataSources ns composed (servers.zip prepared) []
  return .make (← ns.applyToSchema schema) sources (ns.applyToFieldConfigs fields composed)
    (ns.typeMappings composed) []

end Federation

end Supergraph
