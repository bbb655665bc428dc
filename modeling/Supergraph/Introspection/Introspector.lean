import Supergraph.Introspection.Cache
import Supergraph.Introspection.Policy
import Supergraph.Json.Parser

/-!
# Introspection with a cache

An introspection takes what the cache holds for its subject, if the policy allows it, and otherwise
runs its generator. Offline the generator never runs. Fresh results are kept, but a failure to read
or to write the cache never makes an introspection fail, and an entry that cannot be read counts as
missing. A subject with a disabled cache never touches it.
-/

namespace Supergraph

/-- A value as JSON text. -/
def Json.Codec.print {α : Type} (codec : Codec α) (value : α) : String := (codec.encode value).print

/-- Reads a value from JSON text. -/
def Json.Codec.parse? {α : Type} (codec : Codec α) (text : String) : Option α :=
  (Json.parse? text).bind codec.decode

/-- What another introspection found. -/
inductive PollOutcome (α : Type) where
  | unchanged
  | changed (value : α)
deriving DecidableEq, Repr, Inhabited

/-- Introspects backends under a policy, with a cache. -/
structure Introspector (m : Type → Type) where
  policy : Policy
  cache : Cache m

namespace Introspector

variable {m : Type → Type} [Monad m] {α : Type}

/-- Whether fresh results of a subject are kept. -/
def keeps (introspector : Introspector m) (subject : Subject) : Bool :=
  introspector.policy.caching && ! subject.refresh.disableCache

/-- Whether the cache is asked for a subject. -/
def asks (introspector : Introspector m) (subject : Subject) : Bool :=
  introspector.policy.readsCache && ! subject.refresh.disableCache

/-- What the cache holds for a fingerprint, if it can be read. -/
def lookUp (introspector : Introspector m) (codec : Json.Codec α) (fingerprint : Fingerprint) :
    m (Option α) := do
  match ← introspector.cache.read fingerprint with
  | .ok (some text) => return codec.parse? text
  | .ok none => return none
  | .error _ => return none

/-- Keeps a result, if the cache can be written. -/
def keep (introspector : Introspector m) (codec : Json.Codec α) (fingerprint : Fingerprint)
    (value : α) : m Unit := do
  let _ ← (introspector.cache.write fingerprint (codec.print value)).run

/-- Runs a generator and keeps its result. -/
def refresh (introspector : Introspector m) (codec : Json.Codec α) (subject : Subject)
    (generate : ExceptT Error m α) : ExceptT Error m α := do
  let value ← generate
  if introspector.keeps subject then introspector.keep codec subject.fingerprint value
  return value

/-- Fails offline, and otherwise goes on. -/
def online (introspector : Introspector m) (subject : Subject) (action : ExceptT Error m α) :
    ExceptT Error m α :=
  if introspector.policy.offline then throw (.offlineMiss subject.fingerprint.hex) else action

/-- The result for a subject, from the cache or from a generator. -/
def introspect (introspector : Introspector m) (codec : Json.Codec α) (subject : Subject)
    (generate : ExceptT Error m α) : ExceptT Error m α := do
  let cached ←
    if introspector.asks subject then introspector.lookUp codec subject.fingerprint else pure none
  match cached with
  | some value => return value
  | none => introspector.online subject (introspector.refresh codec subject generate)

/-- Runs a generator again and tells whether its result counts as equal to the previous one. Only a
changed result is kept. -/
def repoll [BEq α] (introspector : Introspector m) (codec : Json.Codec α)
    (subject : Subject) (previous : α) (generate : ExceptT Error m α) :
    ExceptT Error m (PollOutcome α) :=
  introspector.online subject do
    let value ← generate
    if value == previous then return .unchanged
    if introspector.keeps subject then introspector.keep codec subject.fingerprint value
    return .changed value

/-- How many seconds should pass between two introspections of a subject, if it is polled. -/
def pollingInterval (introspector : Introspector m) (subject : Subject) : Option UInt64 :=
  if introspector.policy.polling then subject.refresh.pollingIntervalSeconds.filter (0 < ·)
  else none

end Introspector

end Supergraph
