import Supergraph.Setting

/-!
# Introspection policies

A policy holds for all introspections of a process and is read from environment variables. A switch
is on only if its variable is the word `true`.
-/

namespace Supergraph

/-- How backends are introspected. -/
structure Policy where
  /-- Whether backends are introspected again from time to time. -/
  polling : Bool
  /-- Whether results are kept, and used again. -/
  caching : Bool
  /-- Whether only kept results may be used. -/
  offline : Bool
  /-- The directory that results are kept in. -/
  cacheDirectory : String
deriving DecidableEq, Repr, Inhabited

namespace Policy

/-- The directory that results are kept in, unless another one is named. -/
def defaultDirectory : String := ".gql-compose/cache/introspection"

/-- The policy with every switch off. -/
def default : Policy := ⟨false, false, false, defaultDirectory⟩

/-- Whether a variable switches something on. -/
def flag (environment : Environment) (name : String) : Bool := environment name = some "true"

/-- The policy that environment variables describe. A directory with an empty name does not count.
-/
def ofEnvironment (environment : Environment) : Policy where
  polling := flag environment "GQL_COMPOSE_DATA_SOURCE_POLLING_MODE"
  caching := flag environment "GQL_COMPOSE_ENABLE_INTROSPECTION_CACHE"
  offline := flag environment "GQL_COMPOSE_ENABLE_INTROSPECTION_OFFLINE"
  cacheDirectory :=
    ((environment "GQL_COMPOSE_INTROSPECTION_CACHE_DIR").filter (· ≠ "")).getD defaultDirectory

/-- Whether kept results are looked up at all. -/
def readsCache (policy : Policy) : Bool := policy.caching || policy.offline

end Policy

end Supergraph
