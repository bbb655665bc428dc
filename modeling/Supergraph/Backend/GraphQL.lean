import Supergraph.Composite
import Supergraph.ScalarReplacement

/-!
# GraphQL servers

The composite of a GraphQL server is built from its schema text. The schema extension is appended to
the text, and custom scalars are replaced. The server keeps seeing its own schema with the
extension; the gateway shows the one with replaced scalars.
-/

namespace Supergraph

/-- A GraphQL server. -/
structure GraphQLBackend where
  http : HttpBackend
  url : Setting
  baseUrl : Option Setting
  path : Option Setting
  subscriptionsUrl : Option Setting
  subscriptionsUseSse : Bool
  inlineSchema : Option String
  schemaExtension : Option String
  isFederation : Bool
  skippedRootFields : List String
  scalarReplacements : List ScalarReplacement
deriving DecidableEq, Inhabited

/-- A schema text with an extension behind it. -/
def extendSchema (sdl : String) : Option String → String
  | some extension => sdl ++ "\n" ++ extension
  | none => sdl

/-- The schema of a server, made ready for composition. -/
structure PreparedSchema where
  /-- The printed schema as the server serves it, with the extension. -/
  served : String
  /-- The printed schema as the gateway shows it, before namespacing. -/
  exposed : String
  retypings : List ArgumentRetyping
deriving DecidableEq, Repr, Inhabited

namespace GraphQLBackend

/-- A server at a fixed address, everything else left to the defaults. -/
def ofUrl (url : String) : GraphQLBackend :=
  ⟨.default, .literal url, none, none, none, false, none, none, false, [], []⟩

def scope (backend : GraphQLBackend) : Namespace :=
  .ofName backend.http.apiNamespace backend.skippedRootFields

/-- Makes the schema of a server ready for composition. -/
def prepare (backend : GraphQLBackend) (sdl : String) : Except Error PreparedSchema := do
  let document ← parseSchema (extendSchema sdl backend.schemaExtension)
  return {
    served := document.print
    exposed := (ScalarReplacement.applyToDocument backend.scalarReplacements document).print
    retypings := ScalarReplacement.retypings backend.scalarReplacements document }

/-- How requests are sent to a server. -/
def fetch (backend : GraphQLBackend) : Except Error Fetch := do
  return { ← Fetch.forBackend backend.url.toEngine .post backend.http with
    baseUrl := backend.baseUrl.map Setting.toEngine
    path := backend.path.map Setting.toEngine }

/-- The payload of the data source of a server with the given schema. -/
def payload (backend : GraphQLBackend) (prepared : PreparedSchema) (document : Document)
    (fetch : Fetch) : GraphQLPayload where
  federation := ⟨backend.isFederation, if backend.isFederation then prepared.served else ""⟩
  fetch := fetch
  subscription := {
    enabled := (RootTypes.ofDocument document).subscription.isSome
    url := (backend.subscriptionsUrl.getD backend.url).toEngine
    useSse := backend.subscriptionsUseSse }
  backendSchema := prepared.served

/-- The data source of a server whose schema becomes part of `composed`, and the field
configurations in terms of the server. -/
def dataSource (backend : GraphQLBackend) (prepared : PreparedSchema) (ns : Namespace)
    (composed : Document) : Except Error (DataSource GraphQLPayload × List FieldConfig) := do
  let document ← parseSchema prepared.exposed
  let service := if backend.isFederation then some document else none
  let classification ← classify document service prepared.retypings
  let fetch ← backend.fetch
  let source : DataSource GraphQLPayload := {
    id := backend.http.settings.id
    kind := .graphql
    -- The server's own nodes, moved as the composed schema has its roots.
    rootNodes := ns.applyToNodes classification.rootNodes composed
    childNodes := ns.applyToNodes classification.childNodes composed
    payload := backend.payload prepared document fetch
    directives := []
    requestTimeoutSeconds := backend.http.settings.requestTimeoutSeconds }
  return (source, classification.fields)

/-- The composite of a server from its schema text. -/
def composite (backend : GraphQLBackend) (sdl : String) :
    Except Error (Composite GraphQLPayload) := do
  let prepared ← backend.prepare sdl
  let document ← parseSchema prepared.exposed
  let ns := backend.scope
  let (source, fields) ← backend.dataSource prepared ns document
  return .make (← ns.applyToSchema prepared.exposed) [source]
    (ns.applyToFieldConfigs fields document) (ns.typeMappings document) []

end GraphQLBackend

end Supergraph
