import Supergraph.Language.Token

/-!
# Errors

Everything that can go wrong in composing a schema, by cause. `Error.message` words it.
-/

namespace Supergraph

/-- Failures of the file system. -/
inductive FileError where
  | notFound
  | exists
  | notDirectory
  | isDirectory
  | invalidText
deriving DecidableEq, Repr, Inhabited

/-- The wording of a failure of the file system. -/
def FileError.message : FileError → String
  | .notFound => "No such file or directory (os error 2)"
  | .exists => "File exists (os error 17)"
  | .notDirectory => "Not a directory (os error 20)"
  | .isDirectory => "Is a directory (os error 21)"
  | .invalidText => "stream did not contain valid UTF-8"

/-- Values that only some choices are available for. -/
inductive Mapping where
  | signingMethod
  | authenticationKind
  | tokenExchangeEndpoint
  | databaseSchema
deriving DecidableEq, Repr, Inhabited

def Mapping.title : Mapping → String
  | .signingMethod => "JWT signing method"
  | .authenticationKind => "upstream authentication kind"
  | .tokenExchangeEndpoint => "access token exchange endpoint"
  | .databaseSchema => "database schema"

/-- Why a composition failed. -/
inductive Error where
  /-- A schema text does not fit the grammar at a place. -/
  | invalidSchema (place : Position)
  /-- A field set does not fit the grammar at a place of the braced text. -/
  | invalidFieldSet (fields : String) (place : Position)
  /-- A choice that is not available. -/
  | unsupported (mapping : Mapping) (value : String)
  /-- A backend, or the description of one, gave no schema. -/
  | introspectionFailed (message : String)
  /-- Offline, and the cache has no usable entry. -/
  | offlineMiss (fingerprint : String)
  | file (error : FileError)
  /-- A text that is no JSON or not of the expected shape. -/
  | malformed
deriving DecidableEq, Repr, Inhabited

/-- The wording of a grammar error. -/
def Position.message (place : Position) : String :=
  "Parse error at " ++ toString place.line ++ ":" ++ toString place.column

/-- The wording of an error. A malformed text has no wording of its own. -/
def Error.message : Error → String
  | .invalidSchema place => "Invalid schema: schema parse error: " ++ place.message
  | .invalidFieldSet fields place =>
    "Invalid selection set \x60" ++ fields ++ "\x60: query parse error: " ++ place.message
  | .unsupported mapping value => mapping.title ++ " not implemented for: " ++ value
  | .introspectionFailed message => message
  | .offlineMiss fingerprint =>
    "No cached introspection " ++ fingerprint ++ ", no network access permitted in offline mode"
  | .file error => "IO error: " ++ error.message
  | .malformed => "JSON error"

end Supergraph
