import Supergraph.Composite
import Supergraph.Json.Printer

/-!
# REST services

A REST service is described by an OpenAPI document, which a converter turns into a composite in
terms of the service. Here that composite is namespaced.
-/

namespace Supergraph

/-- Where the OpenAPI document of a service is found. -/
inductive OpenApiSource where
  | file (path : String)
  | text (document : String)
  | object (document : Json.Canonical)
deriving DecidableEq, Inhabited

/-- A REST service with an OpenAPI document. -/
structure OpenApiBackend where
  http : HttpBackend
  source : OpenApiSource
  baseUrl : Option String
  statusCodeUnions : Bool
  skippedRootFields : List String
deriving DecidableEq, Inhabited

namespace OpenApiBackend

/-- A service, everything else left to the defaults. -/
def ofSource (source : OpenApiSource) : OpenApiBackend := ⟨.default, source, none, false, []⟩

def scope (backend : OpenApiBackend) : Namespace :=
  .ofName backend.http.apiNamespace backend.skippedRootFields

/-- The mappings of the converter in the composed schema, and those of types without one. -/
def typeMappings (ns : Namespace) (given : List TypeMapping) (document : Document) :
    List TypeMapping :=
  (ns.typeMappings document).foldl (fun mappings mapping =>
    if mappings.any (·.typeName = mapping.typeName) then mappings else mappings ++ [mapping])
    (ns.applyToTypeMappings given)

/-- The composite of a service from what the converter made. -/
def namespaced (backend : OpenApiBackend) (converted : Composite RestPayload) :
    Except Error (Composite RestPayload) := do
  let ns := backend.scope
  if ns.isEmpty then return converted
  let document ← parseSchema converted.schema
  return {
    flushIntervalMillis := converted.flushIntervalMillis
    schema := ← ns.applyToSchema converted.schema
    dataSources := converted.dataSources.map (·.mapNodes (ns.applyToNodes · document))
    fields := ns.applyToFieldConfigs converted.fields document
    types := typeMappings ns converted.types document
    jsonVariableTypes := ns.applyToTypeNames converted.jsonVariableTypes }

end OpenApiBackend

end Supergraph
