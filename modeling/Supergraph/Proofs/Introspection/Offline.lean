import Supergraph.Introspection.Backends
import Supergraph.Proofs.Introspection.DiskSteps
import Supergraph.Proofs.Introspection.Fingerprints

/-!
# Offline nothing is reached but the cache

An introspection may call others: the cache, the servers, the engine, a converter, the file of a
document, and the generator that a poll is given. Here these are arbitrary actions on some state,
and every call of one of them is recorded (`Trace`).

**Theorem (`offline_reaches_only_cache`).** Offline, a run of introspections and polls calls nothing
but the reading side of the cache. Each introspection gives the entry of its own fingerprint, or
fails with that fingerprint where there is none to be used; each poll fails. A document in a file is
introspected without a call of the cache, offline or not.

**Proof.** Every introspection of a cached kind is one of the introspector, for some generator
(`introspect_eq`), and offline that generator is never run, whatever it is (`introspect_offline`).
What one call keeps (`Request.Inside`) is kept by a run, by induction on its calls
(`after_inside`).
-/

namespace Supergraph

/-! ## Calls -/

/-- A call of somebody else. -/
inductive Call where
  | read (fingerprint : Fingerprint)
  | write (fingerprint : Fingerprint) (text : String)
  | fetch (backend : GraphQLBackend)
  | report (kind : DatabaseKind) (url : String)
  | wait (millis : Nat)
  | openDocument (path : String)
  | convert (document : String) (backend : OpenApiBackend)
  | generate

/-- Whether a call is one of the cache. -/
def Call.isCacheAccess : Call → Bool
  | .read _ | .write _ _ => true
  | _ => false

/-- A state, and the calls that were made on the way to it. -/
structure Trace (σ : Type) where
  state : σ
  calls : List Call

/-- An action that is recorded as a call. -/
def recorded {σ β : Type} (call : Call) (action : ExceptT Error (StateM σ) β) :
    ExceptT Error (StateM (Trace σ)) β :=
  ExceptT.mk fun t =>
    ((perform action.run t.state).1, ⟨(perform action.run t.state).2, t.calls ++ [call]⟩)

/-- All that an introspection may call, as actions on a state. -/
structure Collaborators (σ : Type) where
  cache : Cache (StateM σ)
  fetch : SchemaFetcher (StateM σ)
  engine : DatabaseEngine (StateM σ)
  documentAt : String → ExceptT Error (StateM σ) String
  convert : OpenApiConverter (StateM σ)

/-- The same collaborators, with every call recorded. -/
def Collaborators.recorded {σ : Type} (o : Collaborators σ) : Collaborators (Trace σ) where
  cache := {
    read fingerprint := Supergraph.recorded (.read fingerprint) (o.cache.read fingerprint)
    write fingerprint text :=
      Supergraph.recorded (.write fingerprint text) (o.cache.write fingerprint text) }
  fetch backend := Supergraph.recorded (.fetch backend) (o.fetch backend)
  engine := {
    report kind url t :=
      let (report, state) := perform (o.engine.report kind url) t.state
      (report, ⟨state, t.calls ++ [.report kind url]⟩)
    wait millis t := ((), ⟨(perform (o.engine.wait millis) t.state).2, t.calls ++ [.wait millis]⟩) }
  documentAt path := Supergraph.recorded (.openDocument path) (o.documentAt path)
  convert document backend :=
    Supergraph.recorded (.convert document backend) (o.convert document backend)

/-- What a cache holds for a subject, unless it must not be used or cannot be read. -/
def Cache.entry? {σ α : Type} (cache : Cache (StateM σ)) (codec : Json.Codec α) (subject : Subject)
    (s : σ) : Option α :=
  if subject.refresh.disableCache then none
  else
    match (perform (cache.read subject.fingerprint).run s).1 with
    | .ok (some text) => codec.parse? text
    | .ok none | .error _ => none

/-- What was found for a subject, or the failure that there is nothing offline. -/
def Subject.orMiss {α : Type} (subject : Subject) : Option α → Except Error α
  | some value => .ok value
  | none => .error (.offlineMiss subject.fingerprint.hex)

/-- The calls that look a subject up. -/
def Subject.reads (subject : Subject) : List Call :=
  if subject.refresh.disableCache then [] else [.read subject.fingerprint]

/-! ## Introspections of configurations -/

namespace Configuration

/-- What the data sources of a composite of this kind hold. -/
def Payload : Configuration → Type
  | .graphql _ | .federation _ => GraphQLPayload
  | .database _ => DatabasePayload
  | .openApi _ => RestPayload

def codec : (c : Configuration) → Json.Codec (Composite c.Payload)
  | .graphql _ | .federation _ => Composite.codec GraphQLPayload.codec
  | .database _ => Composite.codec DatabasePayload.codec
  | .openApi _ => Composite.codec RestPayload.codec

/-- Whether a configuration refers to a document in a file. -/
def readsFile : Configuration → Bool
  | .openApi backend =>
    match backend.source with
    | .file _ => true
    | .text _ | .object _ => false
  | .graphql _ | .federation _ | .database _ => false

variable {σ : Type}

/-- The introspection of a configuration. -/
def introspect (policy : Policy) (o : Collaborators σ) (environment : Environment)
    (retry : RetryPolicy) :
    (c : Configuration) → ExceptT Error (StateM σ) (Composite c.Payload)
  | .graphql backend => backend.introspect ⟨policy, o.cache⟩ o.fetch
  | .federation federated => federated.introspect ⟨policy, o.cache⟩ o.fetch
  | .database backend => backend.introspect ⟨policy, o.cache⟩ environment o.engine retry
  | .openApi backend => backend.introspect ⟨policy, o.cache⟩ o.documentAt o.convert

/-- Every introspection of a cached kind is one of the introspector. -/
theorem introspect_eq (policy : Policy) (o : Collaborators σ) (environment : Environment)
    (retry : RetryPolicy) {c : Configuration} (h : c.readsFile = false) :
    ∃ generate, c.introspect policy o environment retry =
      Introspector.introspect ⟨policy, o.cache⟩ c.codec c.subject generate := by
  cases c with
  | graphql backend => exact ⟨_, rfl⟩
  | federation federated => exact ⟨_, rfl⟩
  | database backend => exact ⟨_, rfl⟩
  | openApi backend =>
    obtain ⟨http, source, baseUrl, unions, skipped⟩ := backend
    cases source with
    | file path => cases h
    | text document => exact ⟨_, rfl⟩
    | object document => exact ⟨_, rfl⟩

end Configuration

/-! ## Runs -/

inductive Request (σ : Type) : Type 1 where
  | introspect (c : Configuration) (environment : Environment) (retry : RetryPolicy)
  | repoll {α : Type} (codec : Json.Codec α) (subject : Subject) (equal : α → α → Bool)
    (previous : α) (generate : ExceptT Error (StateM σ) α)

namespace Request

variable {σ : Type}

/-- What a call gives. -/
def Result : Request σ → Type
  | .introspect c _ _ => Composite c.Payload
  | @repoll _ α _ _ _ _ _ => PollOutcome α

/-- The call itself, recording whom it calls. -/
def call (policy : Policy) (o : Collaborators σ) :
    (r : Request σ) → ExceptT Error (StateM (Trace σ)) r.Result
  | .introspect c environment retry => c.introspect policy o.recorded environment retry
  | .repoll codec subject equal previous generate =>
    let _ : BEq _ := ⟨equal⟩
    Introspector.repoll ⟨policy, o.recorded.cache⟩ codec subject previous
      (recorded .generate generate)

/-- Whether a call is about a document in a file. -/
def readsFile : Request σ → Bool
  | .introspect c _ _ => c.readsFile
  | .repoll .. => false

/-- What a call must give offline, where the cache is in the given state. -/
def answer (cache : Cache (StateM σ)) (s : σ) : (r : Request σ) → Except Error r.Result
  | .introspect c _ _ => c.subject.orMiss (cache.entry? c.codec c.subject s)
  | .repoll _ subject _ _ _ => subject.orMiss none

/-- Whom a call may reach offline. -/
def reads : Request σ → List Call
  | .introspect c _ _ => c.subject.reads
  | .repoll .. => []

end Request

variable {σ : Type} {policy : Policy} {o : Collaborators σ}

/-- A cache that reading does not change. -/
def Cache.ReadsOnly (cache : Cache (StateM σ)) : Prop :=
  ∀ fingerprint s, (perform (cache.read fingerprint).run s).2 = s

/-- The trace after some calls, one after the other. -/
def after (policy : Policy) (o : Collaborators σ) (requests : List (Request σ)) (t : Trace σ) :
    Trace σ :=
  requests.foldl (fun t r => (perform (r.call policy o).run t).2) t

/-! ## One call -/

/-- **Offline an introspection only looks its subject up**, whatever the generator is. -/
theorem introspect_offline (h : policy.offline = true) {α : Type} (codec : Json.Codec α)
    (subject : Subject) (generate : ExceptT Error (StateM (Trace σ)) α) (t : Trace σ) :
    let outcome := perform (Introspector.introspect ⟨policy, o.recorded.cache⟩ codec subject
      generate).run t
    outcome.1 = subject.orMiss (o.cache.entry? codec subject t.state) ∧
      outcome.2.calls = t.calls ++ subject.reads ∧
      (o.cache.ReadsOnly → outcome.2.state = t.state) := by
  intro outcome
  have hmiss : Introspector.online ⟨policy, o.recorded.cache⟩ subject
      (Introspector.refresh ⟨policy, o.recorded.cache⟩ codec subject generate) =
        throw (.offlineMiss subject.fingerprint.hex) := by
    rw [Introspector.online, h]
    rfl
  have hasks : Introspector.asks ⟨policy, o.recorded.cache⟩ subject =
      ! subject.refresh.disableCache := by
    simp [Introspector.asks, Policy.readsCache, h]
  -- A disabled cache is not even asked, so the miss is all that is left.
  cases hdisable : subject.refresh.disableCache with
  | true =>
    have houtcome : outcome = (subject.orMiss none, t) := by
      simp only [outcome, Introspector.introspect, hasks, hdisable, hmiss]
      rfl
    rw [houtcome, Cache.entry?, Subject.reads, hdisable]
    exact ⟨rfl, (List.append_nil _).symm, fun _ => rfl⟩
  | false =>
    have houtcome : outcome =
        (subject.orMiss (perform (Introspector.lookUp ⟨policy, o.recorded.cache⟩ codec
            subject.fingerprint) t).1,
          (perform (Introspector.lookUp ⟨policy, o.recorded.cache⟩ codec
            subject.fingerprint) t).2) := by
      simp only [outcome, Introspector.introspect, hasks, hdisable, hmiss, Bool.not_false, if_true]
      rw [ExceptT.run_bind, perform_bind, perform_liftM]
      rcases perform (Introspector.lookUp ⟨policy, o.recorded.cache⟩ codec
        subject.fingerprint) t with ⟨_ | value, t'⟩ <;> rfl
    have hread : perform (o.recorded.cache.read subject.fingerprint).run t =
        ((perform (o.cache.read subject.fingerprint).run t.state).1,
          ⟨(perform (o.cache.read subject.fingerprint).run t.state).2,
            t.calls ++ [.read subject.fingerprint]⟩) := rfl
    -- What cannot be read, or is not there, is a miss like any other.
    rw [houtcome, Introspector.perform_lookUp, hread, Cache.entry?, Subject.reads, hdisable]
    refine ⟨?_, ?_, fun hreads => ?_⟩
    · rcases (perform (o.cache.read subject.fingerprint).run t.state).1 with _ | _ | _ <;> rfl
    · rcases (perform (o.cache.read subject.fingerprint).run t.state).1 with _ | _ | _ <;> rfl
    · rw [hreads]
      rcases (perform (o.cache.read subject.fingerprint).run t.state).1 with _ | _ | _ <;> rfl

/-- What a call does offline. -/
structure Request.Inside (o : Collaborators σ) (r : Request σ) (t : Trace σ)
    (outcome : Except Error r.Result × Trace σ) : Prop where
  answer : outcome.1 = r.answer o.cache t.state
  calls : outcome.2.calls = t.calls ++ r.reads
  state : o.cache.ReadsOnly → outcome.2.state = t.state

theorem Request.call_inside (hoffline : policy.offline = true) {r : Request σ}
    (h : r.readsFile = false) (t : Trace σ) : r.Inside o t (perform (r.call policy o).run t) := by
  cases r with
  | introspect c environment retry =>
    obtain ⟨generate, heq⟩ := c.introspect_eq policy o.recorded environment retry h
    obtain ⟨hanswer, hcalls, hstate⟩ :=
      introspect_offline (o := o) hoffline c.codec c.subject generate t
    rw [← heq] at hanswer hcalls hstate
    exact ⟨hanswer, hcalls, hstate⟩
  | repoll codec subject equal previous generate =>
    have hcall : (Request.repoll codec subject equal previous generate).call policy o =
        throw (.offlineMiss subject.fingerprint.hex) := by
      simp only [call, Introspector.repoll, Introspector.online, hoffline, if_true]
      rfl
    rw [hcall]
    exact ⟨rfl, (List.append_nil _).symm, fun _ => rfl⟩

/-! ## Runs of calls -/

theorem after_inside (hoffline : policy.offline = true) {requests : List (Request σ)}
    (h : ∀ r ∈ requests, r.readsFile = false) (t : Trace σ) :
    (after policy o requests t).calls = t.calls ++ requests.flatMap Request.reads ∧
      (o.cache.ReadsOnly → (after policy o requests t).state = t.state) := by
  induction requests generalizing t with
  | nil => exact ⟨(List.append_nil _).symm, fun _ => rfl⟩
  | cons r rest ih =>
    have hcall := Request.call_inside (o := o) hoffline (h r List.mem_cons_self) t
    obtain ⟨hcalls, hstate⟩ := ih (fun r' hr' => h r' (List.mem_cons_of_mem _ hr'))
      (perform (r.call policy o).run t).2
    refine ⟨?_, fun hreads => (hstate hreads).trans (hcall.state hreads)⟩
    rw [after, List.foldl_cons, ← after, hcalls, hcall.calls, List.append_assoc,
      List.flatMap_cons]

/-! ## Caches that reading does not change -/

theorem MemoryCache.entry?_access {α : Type} (codec : Json.Codec α) (subject : Subject)
    (cache : MemoryCache) :
    MemoryCache.access.entry? codec subject cache =
      if subject.refresh.disableCache then none
      else (cache.get? subject.fingerprint).bind codec.parse? := by
  have hread : (perform (MemoryCache.access.read subject.fingerprint).run cache).1 =
      .ok (cache.get? subject.fingerprint) := rfl
  rw [Cache.entry?, hread]
  rcases cache.get? subject.fingerprint with _ | text <;> rfl

theorem MemoryCache.readsOnly : MemoryCache.access.ReadsOnly := fun _ _ => rfl

theorem DiskCache.readsOnly (cache : DiskCache) : cache.access.ReadsOnly := by
  intro fingerprint files
  rw [access, perform_raise, perform_read]

/-! ## Documents in files -/

/-- Whether an action keeps the calls that were made and makes none of the cache. -/
def SparesCache {β : Type} (action : ExceptT Error (StateM (Trace σ)) β) : Prop :=
  ∀ t, ∃ made, (perform action.run t).2.calls = t.calls ++ made ∧
    ∀ call ∈ made, call.isCacheAccess = false

theorem sparesCache_recorded {β : Type} {call : Call} (h : call.isCacheAccess = false)
    (action : ExceptT Error (StateM σ) β) : SparesCache (recorded call action) := fun _ =>
  ⟨[call], rfl, fun _ hcall => List.mem_singleton.1 hcall ▸ h⟩

theorem SparesCache.bind {β γ : Type} {action : ExceptT Error (StateM (Trace σ)) β}
    {next : β → ExceptT Error (StateM (Trace σ)) γ} (h : SparesCache action)
    (hnext : ∀ b, SparesCache (next b)) : SparesCache (action >>= next) := by
  intro t
  obtain ⟨made, hmade, hspared⟩ := h t
  rw [ExceptT.run_bind, perform_bind]
  revert hmade
  rcases perform action.run t with ⟨_ | b, t'⟩
  · exact fun hmade => ⟨made, hmade, hspared⟩
  · intro hmade
    obtain ⟨made', hmade', hspared'⟩ := hnext b t'
    refine ⟨made ++ made', ?_, fun call hcall => ?_⟩
    · rw [← List.append_assoc, ← hmade]
      exact hmade'
    · exact (List.mem_append.1 hcall).elim (hspared call) (hspared' call)

theorem sparesCache_liftM {β : Type} (result : Except Error β) :
    SparesCache (liftM result : ExceptT Error (StateM (Trace σ)) β) := fun t =>
  ⟨[], by cases result <;> exact (List.append_nil _).symm, fun _ h => nomatch h⟩

/-- **A document in a file is introspected without the cache**, offline or not. -/
theorem sparesCache_introspect {backend : OpenApiBackend} {path : String}
    (h : backend.source = .file path) (environment : Environment) (retry : RetryPolicy) :
    SparesCache ((Request.introspect (.openApi backend) environment retry).call policy o) := by
  have hcall : (Request.introspect (.openApi backend) environment retry).call policy o =
      backend.generate o.recorded.documentAt o.recorded.convert := by
    show OpenApiBackend.introspect _ _ _ _ = _
    rw [OpenApiBackend.introspect, h]
  rw [hcall, OpenApiBackend.generate, h]
  exact (sparesCache_recorded rfl _).bind fun document =>
    (sparesCache_recorded rfl _).bind fun converted => sparesCache_liftM _

/-! ## The run -/

/-- **Offline nothing is reached but the cache**, and it is only read. A call gives what the cache
holds where it is made, or the failure that nothing is there. Introspections of a document in a file
do without the cache under every policy. -/
theorem offline_reaches_only_cache (policy : Policy) (o : Collaborators σ) :
    (policy.offline = true → ∀ (requests : List (Request σ)) (t : Trace σ),
      (∀ r ∈ requests, r.readsFile = false) →
        (after policy o requests t).calls = t.calls ++ requests.flatMap Request.reads ∧
        (o.cache.ReadsOnly → (after policy o requests t).state = t.state) ∧
        ∀ done r rest, requests = done ++ r :: rest →
          (perform (r.call policy o).run (after policy o done t)).1 =
            r.answer o.cache (after policy o done t).state) ∧
    (MemoryCache.access.ReadsOnly ∧ ∀ cache : DiskCache, cache.access.ReadsOnly) ∧
    ∀ (backend : OpenApiBackend) (path : String), backend.source = .file path →
      ∀ environment retry,
        SparesCache ((Request.introspect (.openApi backend) environment retry).call policy o) := by
  refine ⟨fun hoffline requests t h => ?_, ⟨MemoryCache.readsOnly, DiskCache.readsOnly⟩,
    fun backend path => sparesCache_introspect⟩
  obtain ⟨hcalls, hstate⟩ := after_inside (o := o) hoffline h t
  refine ⟨hcalls, hstate, fun done r rest hsplit => ?_⟩
  -- The calls before have changed nothing that this one depends on but the cache.
  have hr : r ∈ requests := hsplit ▸ List.mem_append_right _ List.mem_cons_self
  exact (Request.call_inside hoffline (h r hr) _).answer

/-! ## An offline run -/

/-- A server that gives its schema inline. -/
def me : GraphQLBackend :=
  { GraphQLBackend.ofUrl "http://users" with inlineSchema := some "type Query { me: Int }" }

/-- The same server, with a disabled cache. -/
def meUncached : GraphQLBackend := { me with http.settings.refresh.disableCache := true }

/-- A cache in memory, and others who would all answer. -/
def answering : Collaborators MemoryCache where
  cache := MemoryCache.access
  fetch _ := return "type Query { me: Int }"
  engine := ⟨fun _ _ => return default, fun _ => return ()⟩
  documentAt _ := return "{}"
  convert _ _ := return default

/-- Where there is an entry it is used, unless the cache is disabled; a poll fails, although there
is an entry. -/
theorem offline_reaches_only_cache_me :
    let policy : Policy := { Policy.default with offline := true }
    let environment : Environment := fun _ => none
    let text := (Composite.codec GraphQLPayload.codec).print default
    let fingerprint := me.subject.fingerprint
    let start : Trace MemoryCache := ⟨⟨[(fingerprint, text)]⟩, []⟩
    let hit : Request MemoryCache := .introspect (.graphql me) environment .default
    let uncached : Request MemoryCache := .introspect (.graphql meUncached) environment .default
    let poll : Request MemoryCache :=
      .repoll .bool me.subject (· == ·) true (return false)
    let requests := [hit, uncached, poll]
    (after policy answering requests start).calls = [.read fingerprint] ∧
      (after policy answering requests start).state = start.state ∧
      (perform (hit.call policy answering).run start).1 = .ok (default : Composite GraphQLPayload) ∧
      (perform (uncached.call policy answering).run
          (after policy answering [hit] start)).1 =
        .error (.offlineMiss meUncached.subject.fingerprint.hex) ∧
      (perform (poll.call policy answering).run
          (after policy answering [hit, uncached] start)).1 =
        .error (.offlineMiss fingerprint.hex) ∧
      SparesCache ((Request.introspect (.openApi (.ofSource (.file "shop.json"))) environment
        .default).call policy answering) := by
  intro policy environment text fingerprint start hit uncached poll requests
  obtain ⟨hrun, ⟨hreads, -⟩, hfile⟩ := offline_reaches_only_cache policy answering
  have hcached : ∀ r ∈ requests, r.readsFile = false := by
    intro r hr
    simp only [requests, List.mem_cons, List.not_mem_nil, or_false] at hr
    rcases hr with rfl | rfl | rfl <;> rfl
  obtain ⟨hcalls, hstate, hanswers⟩ := hrun rfl requests start hcached
  have hentry : answering.cache.entry? (Composite.codec GraphQLPayload.codec) me.subject
      start.state = some default := by
    have hget : start.state.get? me.subject.fingerprint = some text := by
      simp [start, fingerprint, MemoryCache.get?]
    have hopen : me.subject.refresh.disableCache = false := rfl
    have htext : (Composite.codec GraphQLPayload.codec).parse? text = some default := by
      decide +kernel
    show MemoryCache.access.entry? _ _ _ = _
    rw [MemoryCache.entry?_access, hopen, hget, if_neg Bool.false_ne_true, Option.bind_some, htext]
  refine ⟨hcalls, hstate hreads, ?_, hanswers [hit] uncached [poll] rfl,
    hanswers [hit, uncached] poll [] rfl, hfile _ _ rfl _ _⟩
  refine (hanswers [] hit [uncached, poll] rfl).trans ?_
  exact congrArg me.subject.orMiss hentry

end Supergraph
