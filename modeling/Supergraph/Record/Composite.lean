import Supergraph.Composite
import Supergraph.Record.Http

/-!
# Composites as JSON

The payload of a backend of any kind is written without its kind. It is read as the first kind that
fits, and the members of the three kinds tell them apart.
-/

namespace Supergraph

open Json Members Codec

/-! ## Payloads -/

def FederationPayload.codec : Codec FederationPayload :=
  ((required "Enabled" bool).and (required "ServiceSDL" text)).imap
    (fun (enabled, sdl) => ⟨enabled, sdl⟩) (fun p => (p.enabled, p.serviceSdl)) (fun _ => rfl)
    |>.record

def GraphQLSubscription.codec : Codec GraphQLSubscription :=
  ((required "Enabled" bool).and <| (required "URL" EngineVariable.codec).and <|
    required "UseSSE" bool).imap
    (fun (enabled, url, useSse) => ⟨enabled, url, useSse⟩)
    (fun s => (s.enabled, s.url, s.useSse)) (fun _ => rfl) |>.record

/-- The members of the payload of a GraphQL server. -/
def GraphQLPayload.members : Members GraphQLPayload :=
  ((required "Federation" FederationPayload.codec).and <| (required "Fetch" Fetch.codec).and <|
    (required "Subscription" GraphQLSubscription.codec).and <|
    required "UpstreamSchema" text).imap
    (fun (federation, fetch, subscription, schema) => ⟨federation, fetch, subscription, schema⟩)
    (fun p => (p.federation, p.fetch, p.subscription, p.backendSchema)) (fun _ => rfl)

def GraphQLPayload.codec : Codec GraphQLPayload := members.record

def RestSubscription.codec : Codec RestSubscription :=
  ((required "Enabled" bool).and <|
    (optional "PollingIntervalMillis" word64 word64_neverNull).and <|
    optional "SkipPublishSameResponse" bool bool_neverNull).imap
    (fun (enabled, interval, skip) => ⟨enabled, interval, skip⟩)
    (fun s => (s.enabled, s.pollingIntervalMillis, s.skipSameResponse)) (fun _ => rfl) |>.record

def StatusCodeType.codec : Codec StatusCodeType :=
  ((required "statusCode" word16).and <| (required "typeName" text).and <|
    required "injectStatusCodeIntoBody" bool).imap
    (fun (statusCode, typeName, inject) => ⟨statusCode, typeName, inject⟩)
    (fun t => (t.statusCode, t.typeName, t.injectStatusCode)) (fun _ => rfl) |>.record

/-- The members of the payload of a REST service. -/
def RestPayload.members : Members RestPayload :=
  ((required "Fetch" Fetch.codec).and <| (required "Subscription" RestSubscription.codec).and <|
    (required "DefaultTypeName" text).and <|
    required "StatusCodeTypeMappings" StatusCodeType.codec.list).imap
    (fun (fetch, subscription, default, types) => ⟨fetch, subscription, default, types⟩)
    (fun p => (p.fetch, p.subscription, p.defaultTypeName, p.statusCodeTypes)) (fun _ => rfl)

def RestPayload.codec : Codec RestPayload := members.record

/-- The members of the payload of a database. -/
def DatabasePayload.members : Members DatabasePayload :=
  ((required "prisma_schema" text).and <| (required "graphql_schema" text).and <|
    (required "databaseURL" EngineVariable.codec).and <|
    (required "jsonTypeFields" Coordinate.codec.list).and <|
    required "jsonInputVariables" text.list).imap
    (fun (prisma, graphql, url, fields, jsonVariables) =>
      ⟨prisma, graphql, url, fields, jsonVariables⟩)
    (fun p => (p.prismaSchema, p.graphqlSchema, p.databaseUrl, p.jsonFields, p.jsonVariableTypes))
    (fun _ => rfl)

def DatabasePayload.codec : Codec DatabasePayload := members.record

/-! ## Payloads of any kind -/

namespace AnyPayload

/-- A payload as JSON. -/
def encode : AnyPayload → Json
  | .graphql payload => GraphQLPayload.codec.encode payload
  | .rest payload => RestPayload.codec.encode payload
  | .database payload => DatabasePayload.codec.encode payload

/-- Reads a payload of the first kind that fits. -/
def decode (j : Json) : Option AnyPayload :=
  (GraphQLPayload.codec.decode j).map graphql <|>
    (RestPayload.codec.decode j).map rest <|>
    (DatabasePayload.codec.decode j).map database

theorem decode_graphql_eq_none {members : List (String × Json)}
    (h : "Federation" ∉ members.map (·.1)) :
    GraphQLPayload.codec.decode (.object members) = none := by
  simp [GraphQLPayload.codec, record, ofObject?, GraphQLPayload.members,
    Members.imap, Members.and, Members.required, lookup_eq_none h]

theorem decode_rest_eq_none {members : List (String × Json)}
    (h : "Fetch" ∉ members.map (·.1)) :
    RestPayload.codec.decode (.object members) = none := by
  simp [RestPayload.codec, record, ofObject?, RestPayload.members, Members.imap,
    Members.and, Members.required, lookup_eq_none h]

theorem decode_encode (payload : AnyPayload) : decode payload.encode = some payload := by
  cases payload with
  | graphql payload => simp [decode, encode, GraphQLPayload.codec.decode_encode]
  | rest payload =>
    have notGraphQL : GraphQLPayload.codec.decode (RestPayload.codec.encode payload) = none :=
      decode_graphql_eq_none fun mem =>
        absurd ((RestPayload.members.names_encode payload).subset mem) (by decide)
    simp [decode, encode, notGraphQL, RestPayload.codec.decode_encode]
  | database payload =>
    have notGraphQL : GraphQLPayload.codec.decode (DatabasePayload.codec.encode payload) = none :=
      decode_graphql_eq_none fun mem =>
        absurd ((DatabasePayload.members.names_encode payload).subset mem) (by decide)
    have notRest : RestPayload.codec.decode (DatabasePayload.codec.encode payload) = none :=
      decode_rest_eq_none fun mem =>
        absurd ((DatabasePayload.members.names_encode payload).subset mem) (by decide)
    simp [decode, encode, notGraphQL, notRest, DatabasePayload.codec.decode_encode]

theorem isReadable_encode (payload : AnyPayload) : payload.encode.isReadable = true := by
  cases payload with
  | graphql payload => exact GraphQLPayload.codec.isReadable_encode payload
  | rest payload => exact RestPayload.codec.isReadable_encode payload
  | database payload => exact DatabasePayload.codec.isReadable_encode payload

def codec : Codec AnyPayload := strict ⟨encode, decode, decode_encode, isReadable_encode⟩

end AnyPayload

/-! ## Composites -/

def DataSourceKind.word : DataSourceKind → String
  | .static => "STATIC"
  | .rest => "REST"
  | .graphql => "GRAPHQL"
  | .postgresql => "POSTGRESQL"
  | .mysql => "MYSQL"
  | .sqlserver => "SQLSERVER"
  | .mongodb => "MONGODB"
  | .sqlite => "SQLITE"

def DataSourceKind.codec : Codec DataSourceKind :=
  .choice word [.static, .rest, .graphql, .postgresql, .mysql, .sqlserver, .mongodb, .sqlite]
    (by rintro ⟨⟩ <;> decide)

/-- Something that resolves fields, given how payloads are written. -/
def DataSource.codec {Payload : Type} (payload : Codec Payload) : Codec (DataSource Payload) :=
  ((optional "Id" text text_neverNull).and <| (required "Kind" DataSourceKind.codec).and <|
    (required "RootNodes" TypeFields.codec.list).and <|
    (required "ChildNodes" TypeFields.codec.list).and <| (required "Custom" payload).and <|
    (required "Directives" DirectiveMapping.codec.list).and <|
    required "RequestTimeoutSeconds" word64).imap
    (fun (id, kind, rootNodes, childNodes, payload, directives, timeout) =>
      ⟨id, kind, rootNodes, childNodes, payload, directives, timeout⟩)
    (fun s => (s.id, s.kind, s.rootNodes, s.childNodes, s.payload, s.directives,
      s.requestTimeoutSeconds)) (fun _ => rfl) |>.record

/-- What one backend contributes to an application, given how payloads are written. -/
def Composite.codec {Payload : Type} (payload : Codec Payload) : Codec (Composite Payload) :=
  ((required "DefaultFlushInterval" word64).and <| (required "Schema" text).and <|
    (required "DataSources" (DataSource.codec payload).list).and <|
    (required "Fields" FieldConfig.codec.list).and <|
    (required "Types" TypeMapping.codec.list).and <|
    required "interpolateVariableDefinitionAsJSON" text.list).imap
    (fun (interval, schema, sources, fields, types, jsonVariables) =>
      ⟨interval, schema, sources, fields, types, jsonVariables⟩)
    (fun c => (c.flushIntervalMillis, c.schema, c.dataSources, c.fields, c.types,
      c.jsonVariableTypes)) (fun _ => rfl) |>.record

end Supergraph
