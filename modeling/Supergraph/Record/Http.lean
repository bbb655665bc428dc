import Supergraph.Http
import Supergraph.Record.Engine

/-!
# Backends reached over HTTP, as JSON

The settings of a backend are an open part: their members stand among those of the records that
contain them.
-/

namespace Supergraph

open Json Members Codec

/-! ## What the user gives -/

def RefreshSettings.codec : Codec RefreshSettings :=
  ((defaulted "disableCache" bool false).and
    (optional "pollingIntervalSeconds" word64 word64_neverNull)).imap
    (fun (disableCache, interval) => ⟨disableCache, interval⟩)
    (fun s => (s.disableCache, s.pollingIntervalSeconds)) (fun _ => rfl) |>.record

/-- The members of what is given for every backend. -/
def BackendSettings.members : Members BackendSettings :=
  ((optional "id" text text_neverNull).and <|
    (defaulted "requestTimeoutSeconds" word64 0).and <|
    defaulted "introspection" RefreshSettings.codec ⟨false, none⟩).imap
    (fun (id, timeout, refresh) => ⟨id, timeout, refresh⟩)
    (fun s => (s.id, s.requestTimeoutSeconds, s.refresh)) (fun _ => rfl)

def Credentials.codec : Codec Credentials :=
  ((required "kind" text).and <| (required "secret" Setting.codec).and <|
    (required "signingMethod" text).and <|
    optional "accessTokenExchangeEndpoint" Setting.codec Setting.codec_neverNull).imap
    (fun (kind, secret, method, endpoint) => ⟨kind, secret, method, endpoint⟩)
    (fun c => (c.kind, c.secret, c.signingMethod, c.tokenExchangeEndpoint)) (fun _ => rfl) |>.record

theorem Credentials.codec_neverNull : Credentials.codec.NeverNull := nofun

def ClientCertificate.codec : Codec ClientCertificate :=
  ((required "key" Setting.codec).and <| (required "cert" Setting.codec).and <|
    defaulted "insecureSkipVerify" bool false).imap
    (fun (key, certificate, skip) => ⟨key, certificate, skip⟩)
    (fun c => (c.key, c.certificate, c.skipVerification)) (fun _ => rfl) |>.record

theorem ClientCertificate.codec_neverNull : ClientCertificate.codec.NeverNull := nofun

/-- The members of a backend reached over HTTP, other than its settings. -/
def HttpBackend.ownMembers : Members (Option String × SortedMap Setting × Option Credentials ×
    Option ClientCertificate) :=
  (optional "apiNamespace" text text_neverNull).and <|
    (defaulted "headers" Setting.codec.sortedMap .empty).and <|
    (optional "authentication" Credentials.codec Credentials.codec_neverNull).and <|
    optional "mTLS" ClientCertificate.codec ClientCertificate.codec_neverNull

/-- The members of a backend reached over HTTP. -/
def HttpBackend.members : Members HttpBackend :=
  (BackendSettings.members.and ownMembers).imap
    (fun (settings, apiNamespace, headers, credentials, certificate) =>
      ⟨settings, apiNamespace, headers, credentials, certificate⟩)
    (fun b => (b.settings, b.apiNamespace, b.headers, b.credentials, b.certificate)) (fun _ => rfl)

def HttpBackend.codec : Codec HttpBackend :=
  (openRecord BackendSettings.members ownMembers).imap
    (fun (settings, apiNamespace, headers, credentials, certificate) =>
      ⟨settings, apiNamespace, headers, credentials, certificate⟩)
    (fun b => (b.settings, b.apiNamespace, b.headers, b.credentials, b.certificate)) (fun _ => rfl)

/-! ## What the engine needs -/

def SigningMethod.codec : Codec SigningMethod :=
  .choice (fun | .hs256 => "SigningMethodHS256") [.hs256] (by rintro ⟨⟩; decide)

def AuthenticationKind.word : AuthenticationKind → String
  | .jwt => "UpstreamAuthenticationJWT"
  | .jwtWithTokenExchange => "UpstreamAuthenticationJWTWithAccessTokenExchange"

def AuthenticationKind.codec : Codec AuthenticationKind :=
  .choice word [.jwt, .jwtWithTokenExchange] (by rintro ⟨⟩ <;> decide)

def TokenSigning.codec : Codec TokenSigning :=
  ((required "secret" EngineVariable.codec).and (required "signingMethod" SigningMethod.codec)).imap
    (fun (secret, method) => ⟨secret, method⟩)
    (fun s => (s.secret, s.method)) (fun _ => rfl) |>.record

def TokenExchange.codec : Codec TokenExchange :=
  ((required "accessTokenExchangeEndpoint" EngineVariable.codec).and <|
    (required "secret" EngineVariable.codec).and <|
    required "signingMethod" SigningMethod.codec).imap
    (fun (endpoint, secret, method) => ⟨endpoint, secret, method⟩)
    (fun e => (e.endpoint, e.secret, e.method)) (fun _ => rfl) |>.record

def Authentication.codec : Codec Authentication :=
  ((required "kind" AuthenticationKind.codec).and <|
    (nullable "jwtConfig" TokenSigning.codec nofun).and <|
    nullable "jwtWithAccessTokenExchangeConfig" TokenExchange.codec nofun).imap
    (fun (kind, signing, exchange) => ⟨kind, signing, exchange⟩)
    (fun a => (a.kind, a.signing, a.exchange)) (fun _ => rfl) |>.fullRecord

def EngineCertificate.codec : Codec EngineCertificate :=
  ((required "key" EngineVariable.codec).and <| (required "cert" EngineVariable.codec).and <|
    required "insecureSkipVerify" bool).imap
    (fun (key, certificate, skip) => ⟨key, certificate, skip⟩)
    (fun c => (c.key, c.certificate, c.skipVerification)) (fun _ => rfl) |>.record

def HttpMethod.word : HttpMethod → String
  | .get => "GET"
  | .post => "POST"
  | .put => "PUT"
  | .delete => "DELETE"
  | .patch => "PATCH"
  | .options => "OPTIONS"

def HttpMethod.codec : Codec HttpMethod :=
  .choice word [.get, .post, .put, .delete, .patch, .options] (by rintro ⟨⟩ <;> decide)

/-- The values of a header. -/
def Fetch.headerCodec : Codec (List EngineVariable) :=
  (required "values" EngineVariable.codec.list).record

def Fetch.codec : Codec Fetch :=
  ((required "url" EngineVariable.codec).and <|
    (optional "baseUrl" EngineVariable.codec nofun).and <|
    (optional "path" EngineVariable.codec nofun).and <|
    (required "method" HttpMethod.codec).and <|
    (required "header" headerCodec.sortedMap).and <|
    (optional "upstreamAuthentication" Authentication.codec nofun).and <|
    (optional "mTLS" EngineCertificate.codec nofun).and <|
    required "urlEncodeBody" bool).imap
    (fun (url, baseUrl, path, method, headers, authentication, certificate, encodeBody) =>
      ⟨url, baseUrl, path, method, headers, authentication, certificate, encodeBody⟩)
    (fun f => (f.url, f.baseUrl, f.path, f.method, f.headers, f.authentication, f.certificate,
      f.urlEncodeBody)) (fun _ => rfl) |>.record

end Supergraph
