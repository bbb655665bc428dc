import Supergraph.Backend.Database
import Supergraph.Backend.Federation
import Supergraph.Backend.OpenApi
import Supergraph.Record.Http

/-!
# Backends as JSON

The JSON form of a backend is what a user writes in a configuration file, and what the backend is
told apart from others by. Members without a value and empty lists are left out, except for headers
and refresh settings, which are always written.
-/

namespace Supergraph

open Json Members Codec

/-! ## GraphQL servers -/

def GraphQLBackend.codec : Codec GraphQLBackend :=
  (openRecord HttpBackend.members <| (required "url" Setting.codec).and <|
    (optional "baseUrl" Setting.codec Setting.codec_neverNull).and <|
    (optional "path" Setting.codec Setting.codec_neverNull).and <|
    (optional "subscriptionsUrl" Setting.codec Setting.codec_neverNull).and <|
    (defaulted "subscriptionsUseSSE" bool false).and <|
    (optional "loadSchemaFromString" text text_neverNull).and <|
    (optional "schemaExtension" text text_neverNull).and <|
    (defaulted "isFederation" bool false).and <|
    (listOrNothing "skipRenameRootFields" text).and <|
    listOrNothing "replaceCustomScalarTypeFields" ScalarReplacement.codec).imap
    (fun (http, url, baseUrl, path, subscriptionsUrl, useSse, schema, extension, isFederation,
        skipped, replacements) =>
      ⟨http, url, baseUrl, path, subscriptionsUrl, useSse, schema, extension, isFederation, skipped,
        replacements⟩)
    (fun b => (b.http, b.url, b.baseUrl, b.path, b.subscriptionsUrl, b.subscriptionsUseSse,
      b.inlineSchema, b.schemaExtension, b.isFederation, b.skippedRootFields, b.scalarReplacements))
    (fun _ => rfl)

/-! ## Federations -/

def Subgraph.codec : Codec Subgraph :=
  ((optional "name" text text_neverNull).and <| (required "url" Setting.codec).and <|
    (defaulted "headers" Setting.codec.sortedMap .empty).and <|
    (optional "authentication" Credentials.codec Credentials.codec_neverNull).and <|
    (optional "mTLS" ClientCertificate.codec ClientCertificate.codec_neverNull).and <|
    (optional "subscriptionsUrl" Setting.codec Setting.codec_neverNull).and <|
    (defaulted "subscriptionsUseSSE" bool false).and <|
    (optional "loadSchemaFromString" text text_neverNull).and <|
    (optional "schemaExtension" text text_neverNull).and <|
    listOrNothing "replaceCustomScalarTypeFields" ScalarReplacement.codec).imap
    (fun (name, url, headers, credentials, certificate, subscriptionsUrl, useSse, schema, extension,
        replacements) =>
      ⟨name, url, headers, credentials, certificate, subscriptionsUrl, useSse, schema, extension,
        replacements⟩)
    (fun s => (s.name, s.url, s.headers, s.credentials, s.certificate, s.subscriptionsUrl,
      s.subscriptionsUseSse, s.inlineSchema, s.schemaExtension, s.scalarReplacements))
    (fun _ => rfl) |>.record

def Federation.codec : Codec Federation :=
  (openRecord BackendSettings.members <| (required "upstreams" Subgraph.codec.list).and <|
    optional "apiNamespace" text text_neverNull).imap
    (fun (settings, subgraphs, apiNamespace) => ⟨settings, subgraphs, apiNamespace⟩)
    (fun f => (f.settings, f.subgraphs, f.apiNamespace)) (fun _ => rfl)

/-! ## Databases -/

def DatabaseKind.codec : Codec DatabaseKind :=
  .choice word all (by rintro ⟨⟩ <;> decide)

def DatabaseBackend.codec : Codec DatabaseBackend :=
  (openRecord BackendSettings.members <| (required "databaseSchema" DatabaseKind.codec).and <|
    (required "databaseURL" Setting.codec).and <|
    (optional "apiNamespace" text text_neverNull).and <|
    (listOrNothing "skipRenameRootFields" text).and <|
    (optional "schemaExtension" text text_neverNull).and <|
    listOrNothing "replaceCustomScalarTypeFields" ScalarReplacement.codec).imap
    (fun (settings, kind, url, apiNamespace, skipped, extension, replacements) =>
      ⟨settings, kind, url, apiNamespace, skipped, extension, replacements⟩)
    (fun b => (b.settings, b.kind, b.url, b.apiNamespace, b.skippedRootFields, b.schemaExtension,
      b.scalarReplacements)) (fun _ => rfl)

def DatabaseReport.codec : Codec DatabaseReport :=
  ((required "success" bool).and <| (defaulted "message" text "").and <|
    (defaulted "graphql_schema" text "").and <| (defaulted "prisma_schema" text "").and <|
    (defaulted "interpolateVariableDefinitionAsJSON" text.list []).and <|
    (defaulted "jsonTypeFields" Coordinate.codec.list []).and <|
    defaulted "jsonResponseFields" Coordinate.codec.list []).imap
    (fun (success, message, graphql, prisma, jsonVariables, fields, responses) =>
      ⟨success, message, graphql, prisma, jsonVariables, fields, responses⟩)
    (fun r => (r.success, r.message, r.graphqlSchema, r.prismaSchema, r.jsonVariableTypes,
      r.jsonFields, r.jsonResponseFields)) (fun _ => rfl) |>.record

/-! ## REST services -/

namespace OpenApiSource

/-- The document in a file. -/
def fileCodec : Codec String := (required "filePath" Codec.text).withKind.alternative "file"

/-- The document as a text. -/
def textCodec : Codec String := (required "openapiSpec" Codec.text).withKind.alternative "string"

/-- The document as a value. -/
def objectCodec : Codec Json.Canonical :=
  (required "openapiSpec" Codec.canonical).withKind.alternative "object"

/-- Where an OpenAPI document is found, as JSON. -/
def encode : OpenApiSource → Json
  | .file path => fileCodec.encode path
  | .text document => textCodec.encode document
  | .object document => objectCodec.encode document

/-- Reads where an OpenAPI document is found. -/
def decode (j : Json) : Option OpenApiSource :=
  (fileCodec.decode j).map file <|> (textCodec.decode j).map text <|>
    (objectCodec.decode j).map object

theorem decode_encode (source : OpenApiSource) : decode source.encode = some source := by
  cases source with
  | file path => simp [decode, encode, fileCodec.decode_encode]
  | text document =>
    have notFile : fileCodec.decode (textCodec.encode document) = none :=
      alternative_decode_ne (by decide) _ _ _ _ _ _ _
    simp [decode, encode, notFile, textCodec.decode_encode]
  | object document =>
    have notFile : fileCodec.decode (objectCodec.encode document) = none :=
      alternative_decode_ne (by decide) _ _ _ _ _ _ _
    have notText : textCodec.decode (objectCodec.encode document) = none :=
      alternative_decode_ne (by decide) _ _ _ _ _ _ _
    simp [decode, encode, notFile, notText, objectCodec.decode_encode]

theorem isReadable_encode (source : OpenApiSource) : source.encode.isReadable = true := by
  cases source with
  | file path => exact fileCodec.isReadable_encode path
  | text document => exact textCodec.isReadable_encode document
  | object document => exact objectCodec.isReadable_encode document

/-- Where the OpenAPI document of a service is found. -/
def codec : Codec OpenApiSource := strict ⟨encode, decode, decode_encode, isReadable_encode⟩

end OpenApiSource

def OpenApiBackend.codec : Codec OpenApiBackend :=
  (openRecord HttpBackend.members <| (required "source" OpenApiSource.codec).and <|
    (optional "baseUrl" text text_neverNull).and <|
    (defaulted "statusCodeUnions" bool false).and <|
    listOrNothing "skipRenameRootFields" text).imap
    (fun (http, source, baseUrl, unions, skipped) => ⟨http, source, baseUrl, unions, skipped⟩)
    (fun b => (b.http, b.source, b.baseUrl, b.statusCodeUnions, b.skippedRootFields))
    (fun _ => rfl)

end Supergraph
