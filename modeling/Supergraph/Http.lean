import Supergraph.Error
import Supergraph.Setting
import Supergraph.SortedMap

/-!
# Backends reached over HTTP

The user describes how a backend is reached; `Fetch.forBackend` turns that into what the engine
needs for its requests. The kind of authentication and the signing method are given as words and
looked at only then: first the kind, then the method, then whether an exchange of tokens has an
endpoint.
-/

namespace Supergraph

/-! ## What the user gives -/

/-- When a backend is introspected again. -/
structure RefreshSettings where
  disableCache : Bool
  pollingIntervalSeconds : Option UInt64
deriving DecidableEq, Repr, Inhabited

/-- What is given for every backend. -/
structure BackendSettings where
  id : Option String
  requestTimeoutSeconds : UInt64
  refresh : RefreshSettings
deriving DecidableEq, Repr, Inhabited

/-- How the gateway authenticates itself to a backend. -/
structure Credentials where
  kind : String
  secret : Setting
  signingMethod : String
  tokenExchangeEndpoint : Option Setting
deriving DecidableEq, Repr, Inhabited

/-- The certificate that the gateway shows to a backend. -/
structure ClientCertificate where
  key : Setting
  certificate : Setting
  skipVerification : Bool
deriving DecidableEq, Repr, Inhabited

/-- A backend reached over HTTP. -/
structure HttpBackend where
  settings : BackendSettings
  apiNamespace : Option String
  headers : SortedMap Setting
  credentials : Option Credentials
  certificate : Option ClientCertificate
deriving DecidableEq, Inhabited

/-- Settings that leave everything to the defaults. -/
def BackendSettings.default : BackendSettings := ⟨none, 0, ⟨false, none⟩⟩

/-- A backend without headers, credentials and certificate. -/
def HttpBackend.default : HttpBackend := ⟨.default, none, .empty, none, none⟩

/-! ## What the engine needs -/

/-- How a token is signed. -/
inductive SigningMethod where
  | hs256
deriving DecidableEq, Repr, Inhabited

/-- How the engine authenticates itself. -/
inductive AuthenticationKind where
  | jwt
  | jwtWithTokenExchange
deriving DecidableEq, Repr, Inhabited

/-- The secret and method that tokens are signed with. -/
structure TokenSigning where
  secret : EngineVariable
  method : SigningMethod
deriving DecidableEq, Repr, Inhabited

/-- Tokens that are exchanged at an endpoint before they are used. -/
structure TokenExchange where
  endpoint : EngineVariable
  secret : EngineVariable
  method : SigningMethod
deriving DecidableEq, Repr, Inhabited

/-- How the engine authenticates itself to a backend. -/
structure Authentication where
  kind : AuthenticationKind
  signing : Option TokenSigning
  exchange : Option TokenExchange
deriving DecidableEq, Repr, Inhabited

/-- The certificate that the engine shows to a backend. -/
structure EngineCertificate where
  key : EngineVariable
  certificate : EngineVariable
  skipVerification : Bool
deriving DecidableEq, Repr, Inhabited

inductive HttpMethod where
  | get
  | post
  | put
  | delete
  | patch
  | options
deriving DecidableEq, Repr, Inhabited

/-- How the engine sends requests to a backend. -/
structure Fetch where
  url : EngineVariable
  baseUrl : Option EngineVariable
  path : Option EngineVariable
  method : HttpMethod
  headers : SortedMap (List EngineVariable)
  authentication : Option Authentication
  certificate : Option EngineCertificate
  urlEncodeBody : Bool
deriving DecidableEq, Inhabited

/-- Requests to nowhere in particular. -/
def Fetch.blank : Fetch := ⟨.static "", none, none, .post, .empty, none, none, false⟩

/-! ## From the one to the other -/

def SigningMethod.parse (word : String) : Except Error SigningMethod :=
  if word = "HS256" then .ok .hs256 else .error (.unsupported .signingMethod word)

def AuthenticationKind.parse (word : String) : Except Error AuthenticationKind :=
  if word = "jwt" then .ok .jwt
  else if word = "jwt_with_access_token_exchange" then .ok .jwtWithTokenExchange
  else .error (.unsupported .authenticationKind word)

/-- The authentication that credentials stand for. -/
def Credentials.authentication (credentials : Credentials) : Except Error Authentication := do
  let kind ← AuthenticationKind.parse credentials.kind
  let method ← SigningMethod.parse credentials.signingMethod
  let secret := credentials.secret.toEngine
  match kind, credentials.tokenExchangeEndpoint with
  | .jwt, _ => return ⟨kind, some ⟨secret, method⟩, none⟩
  | .jwtWithTokenExchange, some endpoint =>
    return ⟨kind, none, some ⟨endpoint.toEngine, secret, method⟩⟩
  | .jwtWithTokenExchange, none => throw (.unsupported .tokenExchangeEndpoint "missing")

namespace HttpBackend

/-- The authentication of a backend that has credentials. -/
def authentication (backend : HttpBackend) : Except Error (Option Authentication) :=
  match backend.credentials with
  | some credentials => credentials.authentication.map some
  | none => .ok none

/-- The certificate that the engine shows to a backend. -/
def engineCertificate (backend : HttpBackend) : Option EngineCertificate :=
  backend.certificate.map fun c => ⟨c.key.toEngine, c.certificate.toEngine, c.skipVerification⟩

end HttpBackend

/-- Requests to `url` with the headers, authentication and certificate of a backend. -/
def Fetch.forBackend (url : EngineVariable) (method : HttpMethod) (backend : HttpBackend) :
    Except Error Fetch := do
  return {
    url := url
    baseUrl := none
    path := none
    method := method
    headers := backend.headers.map fun setting => [setting.toEngine]
    authentication := ← backend.authentication
    certificate := backend.engineCertificate
    urlEncodeBody := false }

end Supergraph
