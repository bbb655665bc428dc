import Supergraph.Proofs.Introspection.Steps

/-!
# The cache is transparent

As long as backends stay as they are, a cache must not be seen in the results: every introspection
gives what it would give without one. A session is a run of introspections, of any backends in any
order, on one cache in memory that may fail at any access.

**Theorem (`introspections_transparent`).** The results of a session that starts with an empty cache
are those without a cache. At every moment each entry is the text of what its generator gives, and
if no access fails, no generator whose results are kept succeeds twice.

**Proof.** A call either reads or generates (`Step`). As long as all entries are faithful, a call
that finds an entry gives what the generator would give, and a fresh entry is faithful again. An
entry is only missing if its generator has not succeeded yet.
-/

namespace Supergraph

/-! ## Sessions -/

/-- A cache in memory, how often it was accessed, and the subjects whose generators have succeeded.
-/
structure Session where
  memory : MemoryCache
  accesses : Nat
  generated : List Subject

namespace Session

/-- The session with an empty cache. -/
def start : Session := ⟨.empty, 0, []⟩

/-- The session after an access that changes nothing. -/
def accessed (s : Session) : Session := { s with accesses := s.accesses + 1 }

/-- The session after a generator has succeeded. -/
def noted (s : Session) (subject : Subject) : Session :=
  { s with generated := subject :: s.generated }

/-- An access of the memory. The one with the number `n` fails if `faults n` is an error. -/
def attempt {β : Type} (faults : Nat → Option Error)
    (access : ExceptT Error (StateM MemoryCache) β) : ExceptT Error (StateM Session) β :=
  ExceptT.mk fun s =>
    match faults s.accesses with
    | some error => (.error error, s.accessed)
    | none =>
      let (result, memory) := perform access.run s.memory
      (result, { s.accessed with memory := memory })

/-- The cache of a session. -/
def cache (faults : Nat → Option Error) : Cache (StateM Session) where
  read fingerprint := attempt faults (MemoryCache.access.read fingerprint)
  write fingerprint text := attempt faults (MemoryCache.access.write fingerprint text)

theorem perform_read (faults : Nat → Option Error) (fingerprint : Fingerprint) (s : Session) :
    perform ((cache faults).read fingerprint).run s =
      match faults s.accesses with
      | some error => (.error error, s.accessed)
      | none => (.ok (s.memory.get? fingerprint), s.accessed) := rfl

theorem perform_write (faults : Nat → Option Error) (fingerprint : Fingerprint) (text : String)
    (s : Session) :
    (perform ((cache faults).write fingerprint text).run s).2 =
      match faults s.accesses with
      | some _ => s.accessed
      | none => { s.accessed with memory := s.memory.insert fingerprint text } := by
  show (match faults s.accesses with | some _ => _ | none => _ : Except Error Unit × Session).2 = _
  cases faults s.accesses <;> rfl

/-- How often the generators of subjects whose results are kept have succeeded for a fingerprint. -/
def times (s : Session) (fingerprint : Fingerprint) : Nat :=
  (s.generated.filter fun subject =>
    subject.fingerprint = fingerprint ∧ ! subject.refresh.disableCache).length

end Session

/-! ## Generators -/

/-- What the generators of all fingerprints give, and how it is written. -/
structure Generators where
  Result : Fingerprint → Type
  codec : (fingerprint : Fingerprint) → Json.Codec (Result fingerprint)
  outcome : (fingerprint : Fingerprint) → Except Error (Result fingerprint)

namespace Generators

variable (g : Generators)

/-- Whether the written results can be read again. -/
def ReadsBack : Prop :=
  ∀ fingerprint value, g.outcome fingerprint = .ok value →
    (g.codec fingerprint).parse? ((g.codec fingerprint).print value) = some value

/-- The generator of a subject. It is noted when it succeeds. -/
def generate (subject : Subject) : ExceptT Error (StateM Session) (g.Result subject.fingerprint) :=
  ExceptT.mk fun s =>
    match g.outcome subject.fingerprint with
    | .ok value => (.ok value, s.noted subject)
    | .error error => (.error error, s)

/-- An introspection of a subject. -/
def call (policy : Policy) (faults : Nat → Option Error) (subject : Subject) :
    StateM Session (Except Error (g.Result subject.fingerprint)) :=
  (Introspector.introspect ⟨policy, Session.cache faults⟩ (g.codec subject.fingerprint) subject
    (g.generate subject)).run

/-- The introspections of some subjects, one after the other. -/
def run (policy : Policy) (faults : Nat → Option Error) (subjects : List Subject) :
    StateM Session (List ((fingerprint : Fingerprint) × Except Error (g.Result fingerprint))) :=
  subjects.mapM fun subject => do return ⟨subject.fingerprint, ← g.call policy faults subject⟩

/-- Whether each entry is the text of what its generator gives. -/
def Faithful (memory : MemoryCache) : Prop :=
  ∀ fingerprint text, (fingerprint, text) ∈ memory.entries →
    ∃ value, g.outcome fingerprint = .ok value ∧ (g.codec fingerprint).print value = text

/-- What a call does to a session: it only reads, or it generates a value, which it keeps or not. If
no access fails and the subject has a cache, a value is only generated if there is no entry, and is
kept. -/
inductive Step (faults : Nat → Option Error) (subject : Subject) (s s' : Session) : Prop
  | read (memory : s'.memory = s.memory) (generated : s'.generated = s.generated)
  | fresh (value : g.Result subject.fingerprint)
      (outcome : g.outcome subject.fingerprint = .ok value)
      (generated : s'.generated = subject :: s.generated)
      (memory : s'.memory = s.memory ∨ s'.memory = s.memory.insert subject.fingerprint
        ((g.codec subject.fingerprint).print value))
      (missing : (∀ n, faults n = none) → subject.refresh.disableCache = false →
        s.memory.get? subject.fingerprint = none ∧ s'.memory = s.memory.insert subject.fingerprint
          ((g.codec subject.fingerprint).print value))

variable {g} {policy : Policy} {faults : Nat → Option Error} {subject : Subject} {s : Session}

/-! ## One call -/

theorem perform_generate (g : Generators) (subject : Subject) (s : Session) :
    perform (g.generate subject).run s =
      match g.outcome subject.fingerprint with
      | .ok value => (.ok value, s.noted subject)
      | .error error => (.error error, s) := rfl

theorem refresh_step (g : Generators) (hcaching : policy.caching = true)
    (faults : Nat → Option Error) (subject : Subject) (s : Session)
    (hmissing : (∀ n, faults n = none) → subject.refresh.disableCache = false →
      s.memory.get? subject.fingerprint = none) :
    let refresh := Introspector.refresh ⟨policy, Session.cache faults⟩
      (g.codec subject.fingerprint) subject (g.generate subject)
    (perform refresh.run s).1 = g.outcome subject.fingerprint ∧
      g.Step faults subject s (perform refresh.run s).2 := by
  intro refresh
  rw [Introspector.perform_refresh, perform_generate]
  cases houtcome : g.outcome subject.fingerprint with
  | error error => exact ⟨rfl, .read rfl rfl⟩
  | ok value =>
    have hkeeps : Introspector.keeps ⟨policy, Session.cache faults⟩ subject =
        ! subject.refresh.disableCache := Introspector.keeps_of_caching hcaching
    refine ⟨rfl, ?_⟩
    simp only [Introspector.kept, hkeeps, Session.perform_write]
    cases hdisable : subject.refresh.disableCache with
    | true =>
      refine .fresh value houtcome rfl (.inl rfl) fun _ hkept => ?_
      rw [hdisable] at hkept
      cases hkept
    | false =>
      have haccesses : (s.noted subject).accesses = s.accesses := rfl
      rw [haccesses]
      cases hfault : faults s.accesses with
      | some error =>
        -- A write that fails is no failure of the call.
        refine .fresh value houtcome rfl (.inl rfl) fun hnone _ => ?_
        rw [hnone] at hfault
        cases hfault
      | none =>
        exact .fresh value houtcome rfl (.inr rfl) fun hnone hkept => ⟨hmissing hnone hkept, rfl⟩

/-- An access that changes nothing does not count. -/
theorem Step.of_accessed {s' : Session} (h : g.Step faults subject s.accessed s') :
    g.Step faults subject s s' := by
  cases h with
  | read memory generated => exact .read memory generated
  | fresh value outcome generated memory missing =>
    exact .fresh value outcome generated memory missing

/-- A call gives what the generator of its subject gives, as long as all entries are faithful. -/
theorem call_step (hreads : g.ReadsBack) (hcaching : policy.caching = true)
    (honline : policy.offline = false) (faults : Nat → Option Error)
    (hfaithful : g.Faithful s.memory) (subject : Subject) :
    (perform (g.call policy faults subject) s).1 = g.outcome subject.fingerprint ∧
      g.Step faults subject s (perform (g.call policy faults subject) s).2 := by
  rw [call, Introspector.perform_introspect honline]
  cases hdisable : subject.refresh.disableCache with
  | true =>
    have hasks : ¬ Introspector.asks ⟨policy, Session.cache faults⟩ subject := by
      rw [Introspector.asks_of_caching hcaching, hdisable]
      decide
    rw [if_neg hasks]
    refine refresh_step g hcaching faults subject s fun _ hkept => ?_
    rw [hdisable] at hkept
    cases hkept
  | false =>
    have hasks : Introspector.asks ⟨policy, Session.cache faults⟩ subject := by
      rw [Introspector.asks_of_caching hcaching, hdisable]
      rfl
    rw [if_pos hasks, Introspector.perform_lookUp, Session.perform_read]
    cases hfault : faults s.accesses with
    | some error =>
      -- A read that fails is a miss, and then the run is not free of faults.
      have hfails : ¬ ∀ n, faults n = none := fun hnone => by
        rw [hnone] at hfault
        cases hfault
      obtain ⟨hresult, hstep⟩ := refresh_step g hcaching faults subject s.accessed
        fun hnone _ => absurd hnone hfails
      exact ⟨hresult, hstep.of_accessed⟩
    | none =>
      cases hentry : s.memory.get? subject.fingerprint with
      | none =>
        obtain ⟨hresult, hstep⟩ := refresh_step g hcaching faults subject s.accessed
          fun _ _ => hentry
        exact ⟨hresult, hstep.of_accessed⟩
      | some text =>
        -- The entry is a result of this generator, so it need not run again.
        obtain ⟨value, houtcome, rfl⟩ := hfaithful _ _ (MemoryCache.mem_entries_of_get? hentry)
        simp only [hreads _ _ houtcome]
        exact ⟨houtcome.symm, .read rfl rfl⟩

/-! ## What a call preserves -/

/-- Whether each generator whose results are kept has succeeded at most once, and has an entry if it
has. -/
def Once (s : Session) : Prop :=
  ∀ fingerprint, s.times fingerprint = 0 ∨
    (s.times fingerprint = 1 ∧ s.memory.get? fingerprint ≠ none)

/-- What holds of a session at every moment. -/
structure Sound (g : Generators) (faults : Nat → Option Error) (s : Session) : Prop where
  faithful : g.Faithful s.memory
  once : (∀ n, faults n = none) → Once s

theorem Step.faithful {s' : Session} (h : g.Step faults subject s s')
    (hfaithful : g.Faithful s.memory) : g.Faithful s'.memory := by
  cases h with
  | read memory => exact memory ▸ hfaithful
  | fresh value outcome generated memory missing =>
    intro fingerprint text hentry
    rcases memory with memory | memory <;> rw [memory] at hentry
    · exact hfaithful fingerprint text hentry
    · rcases MemoryCache.mem_put hentry with e | hentry
      · obtain ⟨rfl, rfl⟩ := Prod.mk.injEq .. ▸ e
        exact ⟨value, outcome, rfl⟩
      · exact hfaithful fingerprint text hentry

theorem Step.once {s' : Session} (h : g.Step faults subject s s') (hnone : ∀ n, faults n = none)
    (honce : Once s) : Once s' := by
  intro fingerprint
  cases h with
  | read memory generated =>
    rw [Session.times, generated, memory]
    exact honce fingerprint
  | fresh value outcome generated memory missing =>
    have hkeeps : s.memory.get? fingerprint ≠ none → s'.memory.get? fingerprint ≠ none := by
      intro h
      rcases memory with memory | memory <;> rw [memory]
      · exact h
      · rw [MemoryCache.get?_insert]
        by_cases hsame : subject.fingerprint = fingerprint
        · simp [hsame]
        · rw [if_neg hsame]
          exact h
    by_cases hcounts : subject.fingerprint = fingerprint ∧ ! subject.refresh.disableCache
    · -- Nothing was there, so the generator had not succeeded yet.
      obtain ⟨rfl, hcounted⟩ := hcounts
      obtain ⟨hmissing, hinsert⟩ := missing hnone (by simpa using hcounted)
      have hzero : s.times subject.fingerprint = 0 :=
        (honce subject.fingerprint).resolve_right fun h => h.2 hmissing
      refine .inr ⟨?_, ?_⟩
      · rw [Session.times, generated, List.filter_cons_of_pos (by simpa using hcounted),
          List.length_cons, ← Session.times, hzero]
      · rw [hinsert, MemoryCache.get?_insert, if_pos rfl]
        exact Option.some_ne_none _
    · have hsame : s'.times fingerprint = s.times fingerprint := by
        rw [Session.times, generated, List.filter_cons_of_neg (by simpa using hcounts),
          ← Session.times]
      rw [hsame]
      exact (honce fingerprint).imp_right fun h => ⟨h.1, hkeeps h.2⟩

theorem sound_start (g : Generators) (faults : Nat → Option Error) : g.Sound faults .start where
  faithful _ _ h := absurd h List.not_mem_nil
  once _ _ := .inl rfl

theorem call_sound (hreads : g.ReadsBack) (hcaching : policy.caching = true)
    (honline : policy.offline = false) (subject : Subject) (s : Session) (hs : g.Sound faults s) :
    (perform (g.call policy faults subject) s).1 = g.outcome subject.fingerprint ∧
      g.Sound faults (perform (g.call policy faults subject) s).2 := by
  obtain ⟨hresult, hstep⟩ := call_step hreads hcaching honline faults hs.faithful subject
  exact ⟨hresult, hstep.faithful hs.faithful, fun hnone => hstep.once hnone (hs.once hnone)⟩

/-- Without a cache every call gives what its generator gives. -/
theorem call_uncached (g : Generators) (honline : policy.offline = false)
    (faults : Nat → Option Error) (subject : Subject) (s : Session) :
    (perform (g.call { policy with caching := false } faults subject) s).1 =
      g.outcome subject.fingerprint := by
  have hasks : ¬ Introspector.asks ⟨{ policy with caching := false }, Session.cache faults⟩
      subject := by
    simp [Introspector.asks, Policy.readsCache, honline]
  rw [call, Introspector.perform_introspect honline, if_neg hasks]
  show (perform (Introspector.refresh _ _ _ _).run s).1 = _
  rw [Introspector.perform_refresh, perform_generate]
  cases g.outcome subject.fingerprint <;> rfl

/-! ## Runs -/

theorem run_cons (policy : Policy) (faults : Nat → Option Error) (subject : Subject)
    (rest : List Subject) (s : Session) :
    perform (g.run policy faults (subject :: rest)) s =
      (⟨subject.fingerprint, (perform (g.call policy faults subject) s).1⟩ ::
          (perform (g.run policy faults rest) (perform (g.call policy faults subject) s).2).1,
        (perform (g.run policy faults rest) (perform (g.call policy faults subject) s).2).2) := by
  rw [run, List.mapM_cons]
  rfl

/-- If every call gives what its generator gives and keeps `I`, then so does every run. -/
theorem run_induct (I : Session → Prop)
    (hcall : ∀ subject s, I s →
      (perform (g.call policy faults subject) s).1 = g.outcome subject.fingerprint ∧
        I (perform (g.call policy faults subject) s).2)
    (subjects : List Subject) (hs : I s) :
    (perform (g.run policy faults subjects) s).1 =
        subjects.map (fun subject => ⟨subject.fingerprint, g.outcome subject.fingerprint⟩) ∧
      I (perform (g.run policy faults subjects) s).2 := by
  induction subjects generalizing s with
  | nil => exact ⟨rfl, hs⟩
  | cons subject rest ih =>
    obtain ⟨hresult, hnext⟩ := hcall subject s hs
    obtain ⟨hresults, hlast⟩ := ih hnext
    rw [run_cons]
    refine ⟨?_, hlast⟩
    rw [hresult, hresults, List.map_cons]

/-- **The cache is transparent**: a session gives what it gives without a cache, all entries are
faithful after each call, and if no access fails every generator whose results are kept succeeds at
most once. -/
theorem introspections_transparent (g : Generators) (hreads : g.ReadsBack) (policy : Policy)
    (hcaching : policy.caching = true) (honline : policy.offline = false)
    (faults : Nat → Option Error) (subjects : List Subject) :
    (perform (g.run policy faults subjects) .start).1 =
        (perform (g.run { policy with caching := false } faults subjects) .start).1 ∧
      (∀ done, done <+: subjects →
        g.Faithful (perform (g.run policy faults done) .start).2.memory) ∧
      ((∀ n, faults n = none) → ∀ fingerprint,
        (perform (g.run policy faults subjects) .start).2.times fingerprint ≤ 1) := by
  have hsound := fun done =>
    run_induct (g.Sound faults) (call_sound hreads hcaching honline) done (sound_start g faults)
  have huncached : ∀ subject s, True →
      (perform (g.call { policy with caching := false } faults subject) s).1 =
        g.outcome subject.fingerprint ∧ True :=
    fun subject s _ => ⟨call_uncached g honline faults subject s, trivial⟩
  refine ⟨?_, fun done _ => (hsound done).2.faithful, fun hnone fingerprint => ?_⟩
  · rw [(hsound subjects).1, (run_induct (fun _ => True) huncached subjects trivial).1]
  · rcases (hsound subjects).2.once hnone fingerprint with h | ⟨h, -⟩
    · omega
    · omega

/-! ## Users and orders -/

/-- The users are there, and the orders are not. -/
def statuses : Generators where
  Result _ := Bool
  codec _ := .bool
  outcome fingerprint :=
    if fingerprint.hex = "orders" then .error (.introspectionFailed "no orders") else .ok true

/-- The users are introspected three times with a cache, and once without: the results are right
although the cache cannot be written at first, and where it always can the cached users are
generated only once. -/
theorem statuses_transparent :
    let policy : Policy := { Policy.default with caching := true }
    let users : Subject := ⟨⟨"users"⟩, ⟨false, none⟩⟩
    let orders : Subject := ⟨⟨"orders"⟩, ⟨false, none⟩⟩
    let uncached : Subject := ⟨⟨"users"⟩, ⟨true, none⟩⟩
    let faults : Nat → Option Error := fun n => if n = 1 then some (.file .notFound) else none
    let subjects := [users, orders, users, uncached, users]
    (perform (statuses.run policy faults subjects) .start).1.map (fun result => result.2.toOption) =
        [some true, none, some true, some true, some true] ∧
      (perform (statuses.run policy (fun _ => none) subjects) .start).2.times ⟨"users"⟩ ≤ 1 := by
  intro policy users orders uncached faults subjects
  have hreads : statuses.ReadsBack := by
    intro fingerprint value _
    have hbool : ∀ value : Bool,
        (Json.Codec.parse? .bool (Json.Codec.print .bool value)) = some value := by
      decide +kernel
    exact hbool value
  obtain ⟨hresults, -⟩ := introspections_transparent statuses hreads policy rfl rfl faults subjects
  obtain ⟨-, -, honce⟩ :=
    introspections_transparent statuses hreads policy rfl rfl (fun _ => none) subjects
  refine ⟨?_, honce (fun _ => rfl) ⟨"users"⟩⟩
  rw [hresults]
  decide +kernel

end Generators

end Supergraph
