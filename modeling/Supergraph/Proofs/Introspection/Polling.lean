import Supergraph.Proofs.Introspection.Steps

/-!
# Polling keeps the cache coherent

A client introspects a backend and polls it now and then, each time with the value it has got last.
An introspection only writes the cache where nothing is found, and a poll only where something has
changed, and both trust that what the client holds is what the cache holds. In between other clients
introspect and poll other backends on the same cache.

**Theorem (`polling_coherent`).** Whatever the cache held at first and however the backend answers,
after every call that succeeds the entry of the backend is read as the value that the client holds,
and that is the latest one if the call was a poll. A call that fails changes neither.

**Proof.** The invariant is `Coherent`: if the client holds a value, the entry is read as that one.
Nothing is asked of the entry before the client has got a first value, since polls need one, and a
first introspection replaces an entry that cannot be read.
-/

namespace Supergraph

/-- The value of an outcome that brings one. -/
def PollOutcome.value? {α : Type} : PollOutcome α → Option α
  | .unchanged => none
  | .changed value => some value

namespace Polling

/-- A generator that leaves the cache alone. -/
def give {β : Type} (outcome : Except Error β) : ExceptT Error (StateM MemoryCache) β :=
  ExceptT.mk (pure outcome)

/-- An introspector with a cache in memory. -/
def introspector (policy : Policy) : Introspector (StateM MemoryCache) :=
  ⟨policy, MemoryCache.access⟩

/-- The cache, and the value that a client has got last for its backend. -/
structure Client (α : Type) where
  cache : MemoryCache
  held : Option α

/-- A call of the client with its result, or one of somebody else for another backend. Of a poll it
is also known what the backend has answered. -/
inductive Call (α : Type) where
  | introspect (result : Except Error α)
  | repoll (latest : Except Error α) (result : Except Error (PollOutcome α))
  | elsewhere

/-! ## What the client holds -/

variable {α : Type} {codec : Json.Codec α}

/-- Whether the client holds a value and the entry of the backend is read as that value. -/
structure Client.Has (client : Client α) (codec : Json.Codec α) (fingerprint : Fingerprint)
    (value : α) : Prop where
  held : client.held = some value
  entry : (client.cache.get? fingerprint).bind codec.parse? = some value

/-- Whether the entry of the backend and the value that the client holds are still the same. -/
structure Client.Keeps (client client' : Client α) (fingerprint : Fingerprint) : Prop where
  held : client'.held = client.held
  entry : client'.cache.get? fingerprint = client.cache.get? fingerprint

/-- Whether the entry of the backend is read as the value that the client holds, if it holds one. -/
def Client.Coherent (client : Client α) (codec : Json.Codec α) (fingerprint : Fingerprint) : Prop :=
  ∀ value, client.held = some value →
    (client.cache.get? fingerprint).bind codec.parse? = some value

theorem Client.Has.coherent {client : Client α} {fingerprint : Fingerprint} {value : α}
    (h : client.Has codec fingerprint value) : client.Coherent codec fingerprint := by
  intro other hheld
  obtain rfl : value = other := Option.some.inj (h.held.symm.trans hheld)
  exact h.entry

theorem Client.Keeps.coherent {client client' : Client α} {fingerprint : Fingerprint}
    (h : client.Keeps client' fingerprint) (hcoherent : client.Coherent codec fingerprint) :
    client'.Coherent codec fingerprint := by
  intro value hheld
  rw [h.entry]
  exact hcoherent value (h.held ▸ hheld)

/-! ## Calls -/

variable [BEq α] {policy : Policy} {subject : Subject}

/-- What a call does. The client polls with the value it holds. -/
inductive Step (policy : Policy) (codec : Json.Codec α) (subject : Subject) :
    Client α → Call α → Client α → Prop
  | introspect {client : Client α} {result : Except Error α} {cache : MemoryCache}
      (outcome : Except Error α)
      (h : perform ((introspector policy).introspect codec subject (give outcome)).run
        client.cache = (result, cache)) :
      Step policy codec subject client (.introspect result) ⟨cache, result.toOption.or client.held⟩
  | repoll {client : Client α} {previous : α} {result : Except Error (PollOutcome α)}
      {cache : MemoryCache} (latest : Except Error α) (hheld : client.held = some previous)
      (h : perform ((introspector policy).repoll codec subject previous (give latest)).run
        client.cache = (result, cache)) :
      Step policy codec subject client (.repoll latest result)
        ⟨cache, (result.toOption.bind (·.value?)).or client.held⟩
  | introspectOther {client : Client α} {β : Type} (codecOther : Json.Codec β) (other : Subject)
      (hother : other.fingerprint ≠ subject.fingerprint) (outcome : Except Error β) :
      Step policy codec subject client .elsewhere
        ⟨(perform ((introspector policy).introspect codecOther other (give outcome)).run
          client.cache).2, client.held⟩
  | repollOther {client : Client α} {β : Type} [BEq β] (codecOther : Json.Codec β)
      (other : Subject) (hother : other.fingerprint ≠ subject.fingerprint) (previous : β)
      (outcome : Except Error β) :
      Step policy codec subject client .elsewhere
        ⟨(perform ((introspector policy).repoll codecOther other previous (give outcome)).run
          client.cache).2, client.held⟩

/-- Whether a client that starts without a value can get there by some calls. -/
inductive Reached (policy : Policy) (codec : Json.Codec α) (subject : Subject)
    (initial : MemoryCache) : Client α → Prop
  | start : Reached policy codec subject initial ⟨initial, none⟩
  | step {client client' : Client α} {call : Call α}
      (hreached : Reached policy codec subject initial client)
      (hstep : Step policy codec subject client call client') :
      Reached policy codec subject initial client'

/-! ## The cache after a call -/

section Calls

variable {β : Type} (codec : Json.Codec β) (subject : Subject) (outcome : Except Error β)
  (cache : MemoryCache)

theorem perform_give : perform (give outcome).run cache = (outcome, cache) := rfl

theorem kept_eq (policy : Policy) (value : β) :
    (introspector policy).kept codec subject value cache =
      if (introspector policy).keeps subject then
        cache.insert subject.fingerprint (codec.print value)
      else cache := rfl

theorem perform_refresh (policy : Policy) :
    perform ((introspector policy).refresh codec subject (give outcome)).run cache =
      match outcome with
      | .ok value => (.ok value, (introspector policy).kept codec subject value cache)
      | .error error => (.error error, cache) := by
  rw [Introspector.perform_refresh, perform_give]
  cases outcome <;> rfl

theorem perform_introspect (honline : policy.offline = false) :
    perform ((introspector policy).introspect codec subject (give outcome)).run cache =
      match if (introspector policy).asks subject then
          (cache.get? subject.fingerprint).bind codec.parse?
        else none with
      | some value => (.ok value, cache)
      | none => perform ((introspector policy).refresh codec subject (give outcome)).run cache := by
  have hread : perform ((introspector policy).cache.read subject.fingerprint).run cache =
      (.ok (cache.get? subject.fingerprint), cache) := rfl
  have hlookUp : perform ((introspector policy).lookUp codec subject.fingerprint) cache =
      ((cache.get? subject.fingerprint).bind codec.parse?, cache) := by
    rw [Introspector.perform_lookUp, hread]
    cases cache.get? subject.fingerprint <;> rfl
  rw [Introspector.perform_introspect honline, hlookUp]
  by_cases hasks : (introspector policy).asks subject
  · rw [if_pos hasks, if_pos hasks]
    cases (cache.get? subject.fingerprint).bind codec.parse? <;> rfl
  · rw [if_neg hasks, if_neg hasks]

theorem perform_repoll [BEq β] (honline : policy.offline = false) (previous : β) :
    perform ((introspector policy).repoll codec subject previous (give outcome)).run cache =
      match outcome with
      | .ok value =>
        if value == previous then (.ok .unchanged, cache)
        else (.ok (.changed value), (introspector policy).kept codec subject value cache)
      | .error error => (.error error, cache) := by
  rw [Introspector.perform_repoll honline, perform_give]
  cases outcome <;> rfl

variable {codec subject outcome cache} {fingerprint : Fingerprint}

theorem get?_kept_of_ne (h : subject.fingerprint ≠ fingerprint) (value : β) :
    ((introspector policy).kept codec subject value cache).get? fingerprint =
      cache.get? fingerprint := by
  rw [kept_eq]
  by_cases hkeeps : (introspector policy).keeps subject
  · rw [if_pos hkeeps, MemoryCache.get?_insert, if_neg h]
  · rw [if_neg hkeeps]

/-- A result that has been kept is read as it was. -/
theorem get?_kept_self (hkeeps : (introspector policy).keeps subject) {value : β}
    (hreads : codec.parse? (codec.print value) = some value) :
    (((introspector policy).kept codec subject value cache).get? subject.fingerprint).bind
      codec.parse? = some value := by
  rw [kept_eq, if_pos hkeeps, MemoryCache.get?_insert, if_pos rfl, Option.bind_some, hreads]

theorem get?_introspect_of_ne (honline : policy.offline = false)
    (h : subject.fingerprint ≠ fingerprint) :
    (perform ((introspector policy).introspect codec subject (give outcome)).run cache).2.get?
      fingerprint = cache.get? fingerprint := by
  rw [perform_introspect _ _ _ _ honline]
  split
  · rfl
  · rw [perform_refresh]
    cases outcome with
    | ok value => exact get?_kept_of_ne h value
    | error error => rfl

theorem get?_repoll_of_ne [BEq β] (honline : policy.offline = false)
    (h : subject.fingerprint ≠ fingerprint) (previous : β) :
    (perform ((introspector policy).repoll codec subject previous (give outcome)).run cache).2.get?
      fingerprint = cache.get? fingerprint := by
  rw [perform_repoll _ _ _ _ honline]
  cases outcome with
  | ok value =>
    by_cases hsame : value == previous
    · simp only [hsame, if_true]
    · simp only [hsame]
      exact get?_kept_of_ne h value
  | error error => rfl

end Calls

/-! ## The client's calls -/

section Online

variable (hcaching : policy.caching = true) (honline : policy.offline = false)
  (hreads : ∀ value, codec.parse? (codec.print value) = some value)
  (hcached : subject.refresh.disableCache = false) {client client' : Client α} {call : Call α}

include hcaching honline hreads hcached

/-- What a call does to a coherent client. -/
theorem Step.outcome (hstep : Step policy codec subject client call client')
    (hcoherent : client.Coherent codec subject.fingerprint) :
    match call with
    | .introspect (.ok value) => client'.Has codec subject.fingerprint value
    | .repoll latest (.ok _) => ∃ value new, client'.Has codec subject.fingerprint value ∧
        latest = .ok new ∧ (new = value ∨ (new == value) = true)
    | .introspect (.error _) | .repoll _ (.error _) | .elsewhere =>
      client.Keeps client' subject.fingerprint := by
  have hasks : (introspector policy).asks subject :=
    (Introspector.asks_of_caching hcaching).trans (by rw [hcached]; rfl)
  have hkeeps : (introspector policy).keeps subject :=
    (Introspector.keeps_of_caching hcaching).trans (by rw [hcached]; rfl)
  cases hstep with
  | introspect outcome h =>
    rw [perform_introspect _ _ _ _ honline, if_pos hasks] at h
    cases hentry : (client.cache.get? subject.fingerprint).bind codec.parse? with
    | some value =>
      rw [hentry] at h
      obtain ⟨rfl, rfl⟩ := Prod.mk.injEq .. ▸ h
      exact ⟨rfl, hentry⟩
    | none =>
      rw [hentry] at h
      simp only [perform_refresh] at h
      cases outcome with
      | ok value =>
        obtain ⟨rfl, rfl⟩ := Prod.mk.injEq .. ▸ h
        exact ⟨rfl, get?_kept_self hkeeps (hreads value)⟩
      | error error =>
        obtain ⟨rfl, rfl⟩ := Prod.mk.injEq .. ▸ h
        exact ⟨rfl, rfl⟩
  | @repoll previous _ _ latest hheld h =>
    rw [perform_repoll _ _ _ _ honline] at h
    cases latest with
    | ok value =>
      by_cases hsame : value == previous
      · -- Nothing is written for an equal value, and the entry of the old one is coherent already.
        simp only [hsame, if_true] at h
        obtain ⟨rfl, rfl⟩ := Prod.mk.injEq .. ▸ h
        exact ⟨previous, value, ⟨hheld, hcoherent previous hheld⟩, rfl, .inr hsame⟩
      · simp only [hsame] at h
        obtain ⟨rfl, rfl⟩ := Prod.mk.injEq .. ▸ h
        exact ⟨value, value, ⟨rfl, get?_kept_self hkeeps (hreads value)⟩, rfl, .inl rfl⟩
    | error error =>
      obtain ⟨rfl, rfl⟩ := Prod.mk.injEq .. ▸ h
      exact ⟨rfl, rfl⟩
  | introspectOther codecOther other hother outcome =>
    exact ⟨rfl, get?_introspect_of_ne honline hother⟩
  | repollOther codecOther other hother previous outcome =>
    exact ⟨rfl, get?_repoll_of_ne honline hother previous⟩

theorem Step.coherent (hstep : Step policy codec subject client call client')
    (hcoherent : client.Coherent codec subject.fingerprint) :
    client'.Coherent codec subject.fingerprint := by
  have h := hstep.outcome hcaching honline hreads hcached hcoherent
  cases call with
  | introspect result =>
    cases result with
    | ok value => exact h.coherent
    | error error => exact h.coherent hcoherent
  | repoll latest result =>
    cases result with
    | ok outcome =>
      obtain ⟨value, new, h, -⟩ := h
      exact h.coherent
    | error error => exact h.coherent hcoherent
  | elsewhere => exact h.coherent hcoherent

theorem Reached.coherent {initial : MemoryCache}
    (hreached : Reached policy codec subject initial client) :
    client.Coherent codec subject.fingerprint := by
  -- At the start the client holds nothing, whatever the cache has.
  induction hreached with
  | start =>
    intro value hheld
    cases hheld
  | step _ hstep ih => exact hstep.coherent hcaching honline hreads hcached ih

end Online

/-- **Polling keeps the cache coherent** with what the client holds: a call that succeeds leaves the
client with the value that its entry is read as, which is the latest one after a poll, and a call
that fails leaves both as they were. -/
theorem polling_coherent (policy : Policy) (hcaching : policy.caching = true)
    (honline : policy.offline = false) (codec : Json.Codec α)
    (hreads : ∀ value, codec.parse? (codec.print value) = some value) (subject : Subject)
    (hcached : subject.refresh.disableCache = false) (initial : MemoryCache)
    {client client' : Client α} {call : Call α}
    (hreached : Reached policy codec subject initial client)
    (hstep : Step policy codec subject client call client') :
    match call with
    | .introspect (.ok value) => client'.Has codec subject.fingerprint value
    | .repoll latest (.ok _) => ∃ value new, client'.Has codec subject.fingerprint value ∧
        latest = .ok new ∧ (new = value ∨ (new == value) = true) ∧ (LawfulBEq α → new = value)
    | .introspect (.error _) | .repoll _ (.error _) | .elsewhere =>
      client.Keeps client' subject.fingerprint := by
  have hcoherent := hreached.coherent hcaching honline hreads hcached
  have h := hstep.outcome hcaching honline hreads hcached hcoherent
  cases call with
  | introspect result => cases result <;> exact h
  | repoll latest result =>
    cases result with
    | ok outcome =>
      obtain ⟨value, new, hhas, hlatest, hnew⟩ := h
      exact ⟨value, new, hhas, hlatest, hnew, fun _ => hnew.elim id eq_of_beq⟩
    | error error => exact h
  | elsewhere => exact h

/-! ## Users -/

/-- The users are polled after an introspection, while another backend is introspected: in the end
the client knows that they are gone, and so does the cache. At first the entry cannot be read. -/
theorem polling_coherent_users :
    let policy : Policy := { Policy.default with caching := true }
    let users : Subject := ⟨⟨"users"⟩, ⟨false, none⟩⟩
    ∃ client client' : Client Bool,
      Reached policy .bool users ⟨[(⟨"users"⟩, "?")]⟩ client ∧
      Step policy .bool users client (.repoll (.ok false) (.ok (.changed false))) client' ∧
      client'.Has .bool ⟨"users"⟩ false := by
  intro policy users
  have hreads : ∀ value : Bool,
      Json.Codec.parse? .bool (Json.Codec.print .bool value) = some value := by
    decide +kernel
  let first : Client Bool := ⟨⟨[(⟨"users"⟩, "?")]⟩, none⟩
  let second : Client Bool := ⟨⟨[(⟨"users"⟩, "true")]⟩, some true⟩
  let third : Client Bool := ⟨⟨[(⟨"users"⟩, "true"), (⟨"orders"⟩, "true")]⟩, some true⟩
  let last : Client Bool := ⟨⟨[(⟨"users"⟩, "false"), (⟨"orders"⟩, "true")]⟩, some false⟩
  have hfirst : Step policy .bool users first (.introspect (.ok true)) second :=
    .introspect (.ok true) rfl
  have hother : Step policy .bool users second .elsewhere third :=
    .introspectOther .bool ⟨⟨"orders"⟩, ⟨false, none⟩⟩ (by decide) (.ok true)
  have hpoll : Step policy .bool users third (.repoll (.ok false) (.ok (.changed false))) last :=
    .repoll (.ok false) rfl rfl
  have hreached := (Reached.start.step hfirst).step hother
  obtain ⟨value, new, hhas, hlatest, -, hnew⟩ :=
    polling_coherent policy rfl rfl .bool hreads users rfl _ hreached hpoll
  obtain rfl := Except.ok.inj hlatest
  exact ⟨third, last, hreached, hpoll, hnew inferInstance ▸ hhas⟩

end Polling

end Supergraph
