import Supergraph.Digest.Sha256
import Supergraph.Record.Backend

/-!
# Fingerprints

A backend is known to the introspection cache by its fingerprint: the digest of its kind and its
whole configuration, written as JSON. Two different backends share a fingerprint only if their texts
share a digest.
-/

namespace Supergraph

/-- What a cache entry is found by. -/
structure Fingerprint where
  hex : String
deriving DecidableEq, Repr, Inhabited

namespace Fingerprint

/-- The text that the fingerprint of a configuration is the digest of. -/
def source (kind : String) (configuration : Json) : String :=
  (Json.array [.string kind, configuration]).print

/-- The fingerprint of a configuration of the given kind. -/
def of (kind : String) (configuration : Json) : Fingerprint :=
  ⟨Sha256.hex (source kind configuration).toByteArray.toList⟩

end Fingerprint

/-- What decides how the introspection of a backend is cached and repeated. -/
structure Subject where
  fingerprint : Fingerprint
  refresh : RefreshSettings
deriving DecidableEq, Repr, Inhabited

/-- A GraphQL server as a subject of introspection. -/
def GraphQLBackend.subject (backend : GraphQLBackend) : Subject :=
  ⟨.of "graphql" (codec.encode backend), backend.http.settings.refresh⟩

def Federation.subject (federation : Federation) : Subject :=
  ⟨.of "graphql-federation" (codec.encode federation), federation.settings.refresh⟩

def DatabaseBackend.subject (backend : DatabaseBackend) : Subject :=
  ⟨.of "database" (codec.encode backend), backend.settings.refresh⟩

def OpenApiBackend.subject (backend : OpenApiBackend) : Subject :=
  ⟨.of "openapi" (codec.encode backend), backend.http.settings.refresh⟩

end Supergraph
