import Supergraph.Backend.Database
import Supergraph.Backend.Federation
import Supergraph.Backend.OpenApi
import Supergraph.Introspection.Introspector
import Supergraph.Introspection.Retry
import Supergraph.Record.Composite

/-!
# Introspection of backends

Each kind of backend is described by somebody else: a server tells its own schema, an engine looks
at a database, a converter reads an OpenAPI document. What they say is made into a composite, and
the composite is what is cached.
-/

namespace Supergraph

variable {m : Type → Type} [Monad m]

/-- Asks a server for its schema. -/
abbrev SchemaFetcher (m : Type → Type) : Type := GraphQLBackend → ExceptT Error m String

/-- Makes an OpenAPI document into a composite in terms of the service. -/
abbrev OpenApiConverter (m : Type → Type) : Type :=
  String → OpenApiBackend → ExceptT Error m (Composite RestPayload)

/-- An engine that introspects databases, and a way to wait for some milliseconds. -/
structure DatabaseEngine (m : Type → Type) where
  report : DatabaseKind → String → m DatabaseReport
  wait : Nat → m Unit

/-! ## GraphQL -/

/-- The schema text of a server: the one given inline, or else what the server says. -/
def GraphQLBackend.schemaText (backend : GraphQLBackend) (fetch : SchemaFetcher m) :
    ExceptT Error m String :=
  match backend.inlineSchema with
  | some sdl => return sdl
  | none => fetch backend

/-- The composite of a GraphQL server. -/
def GraphQLBackend.introspect (backend : GraphQLBackend) (introspector : Introspector m)
    (fetch : SchemaFetcher m) : ExceptT Error m (Composite GraphQLPayload) :=
  introspector.introspect (Composite.codec GraphQLPayload.codec) backend.subject do
    let sdl ← backend.schemaText fetch
    backend.composite sdl

/-- The composite of a federation. The subgraphs are asked in order, and the first failure counts.
-/
def Federation.introspect (federation : Federation) (introspector : Introspector m)
    (fetch : SchemaFetcher m) : ExceptT Error m (Composite GraphQLPayload) :=
  introspector.introspect (Composite.codec GraphQLPayload.codec) federation.subject do
    let sdls ← federation.servers.mapM (·.schemaText fetch)
    federation.composite sdls

/-! ## Databases -/

def DatabaseBackend.introspect (backend : DatabaseBackend) (introspector : Introspector m)
    (environment : Environment) (engine : DatabaseEngine m) (retry : RetryPolicy) :
    ExceptT Error m (Composite DatabasePayload) :=
  introspector.introspect (Composite.codec DatabasePayload.codec) backend.subject do
    match backend.url.resolve environment with
    | none => throw (.introspectionFailed "database URL is not set: environment variable missing")
    | some url =>
      let report ← retry.run (engine.report backend.kind url) engine.wait
      backend.composite report

/-! ## OpenAPI -/

/-- The text of the OpenAPI document of a service. -/
def OpenApiSource.document (source : OpenApiSource) (documentAt : String → ExceptT Error m String) :
    ExceptT Error m String :=
  match source with
  | .file path => documentAt path
  | .text document => return document
  | .object document => return document.value.print

/-- The composite of a REST service, from its document. -/
def OpenApiBackend.generate (backend : OpenApiBackend)
    (documentAt : String → ExceptT Error m String) (convert : OpenApiConverter m) :
    ExceptT Error m (Composite RestPayload) := do
  let document ← backend.source.document documentAt
  let converted ← convert document backend
  backend.namespaced converted

/-- The composite of a REST service. A document in a file is read every time and never cached. -/
def OpenApiBackend.introspect (backend : OpenApiBackend) (introspector : Introspector m)
    (documentAt : String → ExceptT Error m String) (convert : OpenApiConverter m) :
    ExceptT Error m (Composite RestPayload) :=
  let generate := backend.generate documentAt convert
  match backend.source with
  | .file _ => generate
  | .text _ | .object _ =>
    introspector.introspect (Composite.codec RestPayload.codec) backend.subject generate

end Supergraph
