import Supergraph.Application
import Supergraph.Proofs.Introspection.DiskEntries
import Supergraph.Proofs.Introspection.Offline

/-!
# The backends of an application are independent

The backends of an application share a policy, an environment and a cache. Whoever else an
introspection calls, a server or the engine for instance, remembers what was asked for one backend
and answers it accordingly, but does not mix up the backends (`World`).

**Theorem (`resolve_independent`).** Let the backends have different fingerprints, and let the cache
keep fingerprints apart (`Cache.KeepsApart`), as one in memory does and one on disk
(`MemoryCache.keepsApart`, `DiskCache.keepsApart`). In every interleaving of the steps of the
introspections there is one result for each backend, in order: the one that its introspection gives
alone. The entry of its fingerprint is the one that it leaves alone. What resolving an application
does is such an interleaving.

**Proof.** Every introspection is confined to the entry of its own fingerprint and to what is
remembered for its own backend (`confined_introspection`). Each part of an introspection is, so this
goes along the definitions. The rest is independence of confined routines.
-/

namespace Supergraph

open Routine

/-! ## Introspections that are confined -/

namespace Introspector

variable {σ α : Type} {own change : σ → σ → Prop} {introspector : Introspector (Routine σ)}
  {subject : Subject}

theorem confined_lookUp (codec : Json.Codec α) {fingerprint : Fingerprint}
    (hread : Confined own change (introspector.cache.read fingerprint).run) :
    Confined own change (introspector.lookUp codec fingerprint) := by
  refine hread.bind fun found => ?_
  rcases found with error | _ | text
  · exact .done none
  · exact .done none
  · exact .done (codec.parse? text)

theorem confined_keep (codec : Json.Codec α) {fingerprint : Fingerprint} (value : α)
    (hwrite : Confined own change
      (introspector.cache.write fingerprint (codec.print value)).run) :
    Confined own change (introspector.keep codec fingerprint value) :=
  hwrite.bind fun _ => .done ()

theorem confined_refresh (codec : Json.Codec α)
    (hwrite : ∀ text, Confined own change (introspector.cache.write subject.fingerprint text).run)
    {generate : ExceptT Error (Routine σ) α} (hgenerate : Confined own change generate.run) :
    Confined own change (introspector.refresh codec subject generate).run := by
  refine hgenerate.run_bind fun value => ?_
  split_ifs
  · exact (confined_keep codec value (hwrite _)).run_lift.run_bind fun _ => .done _
  · exact .done _

theorem confined_online {action : ExceptT Error (Routine σ) α}
    (h : Confined own change action.run) :
    Confined own change (introspector.online subject action).run := by
  unfold online
  split_ifs
  · exact .done _
  · exact h

theorem confined_introspect (codec : Json.Codec α)
    (hread : Confined own change (introspector.cache.read subject.fingerprint).run)
    (hwrite : ∀ text, Confined own change (introspector.cache.write subject.fingerprint text).run)
    {generate : ExceptT Error (Routine σ) α} (hgenerate : Confined own change generate.run) :
    Confined own change (introspector.introspect codec subject generate).run := by
  have hfresh : Confined own change
      (introspector.online subject (introspector.refresh codec subject generate)).run :=
    confined_online (confined_refresh codec hwrite hgenerate)
  unfold introspect
  split_ifs
  · refine (confined_lookUp codec hread).run_lift.run_bind fun cached => ?_
    cases cached with
    | none => exact hfresh
    | some value => exact .done _
  · exact hfresh

end Introspector

/-! ## Backends of all kinds -/

/-- Whom the introspections of backends call, apart from the cache. -/
structure Services (m : Type → Type) where
  fetch : SchemaFetcher m
  engine : DatabaseEngine m
  documentAt : String → ExceptT Error m String
  convert : OpenApiConverter m

/-- The same services in another monad. -/
def Services.hoist {m n : Type → Type} (f : {α : Type} → m α → n α) (services : Services m) :
    Services n where
  fetch backend := f (services.fetch backend)
  engine := ⟨fun kind url => f (services.engine.report kind url),
    fun millis => f (services.engine.wait millis)⟩
  documentAt path := f (services.documentAt path)
  convert document backend := f (services.convert document backend)

namespace Configuration

/-- The composite of a backend, from the cache or from the services. -/
def introspectWith {m : Type → Type} [Monad m] (introspector : Introspector m)
    (services : Services m) (environment : Environment) (retry : RetryPolicy) :
    (c : Configuration) → ExceptT Error m (Composite c.Payload)
  | .graphql backend => backend.introspect introspector services.fetch
  | .federation federated => federated.introspect introspector services.fetch
  | .database backend => backend.introspect introspector environment services.engine retry
  | .openApi backend => backend.introspect introspector services.documentAt services.convert

def asAny : (c : Configuration) → c.Payload → AnyPayload
  | .graphql _ | .federation _ => .graphql
  | .database _ => .database
  | .openApi _ => .rest

end Configuration

/-- Whether all calls of services are confined. -/
structure Services.Confined {σ : Type} (own change : σ → σ → Prop)
    (services : Services (Routine σ)) : Prop where
  fetch (backend : GraphQLBackend) : Routine.Confined own change (services.fetch backend).run
  report (kind : DatabaseKind) (url : String) :
    Routine.Confined own change (services.engine.report kind url)
  wait (millis : Nat) : Routine.Confined own change (services.engine.wait millis)
  documentAt (path : String) : Routine.Confined own change (services.documentAt path).run
  convert (document : String) (backend : OpenApiBackend) :
    Routine.Confined own change (services.convert document backend).run

section Backends

variable {σ : Type} {own change : σ → σ → Prop} {services : Services (Routine σ)}
  (hservices : services.Confined own change)

include hservices

theorem GraphQLBackend.confined_schemaText (backend : GraphQLBackend) :
    Confined own change (backend.schemaText services.fetch).run := by
  unfold schemaText
  split
  · exact .done _
  · exact hservices.fetch backend

theorem RetryPolicy.confined_callAgain (kind : DatabaseKind) (url : String) (millis retries : Nat) :
    Confined own change
      (callAgain (services.engine.report kind url) (services.engine.wait millis) retries) := by
  induction retries with
  | zero => exact (hservices.report kind url).bind fun _ => .done _
  | succ retries ih =>
    refine (hservices.report kind url).bind fun report => ?_
    cases report.outcome with
    | ok report => exact .done _
    | error error => exact (hservices.wait millis).bind fun _ => ih

theorem OpenApiBackend.confined_generate (backend : OpenApiBackend) :
    Confined own change (backend.generate services.documentAt services.convert).run := by
  have hdocument : Confined own change (backend.source.document services.documentAt).run := by
    cases backend.source with
    | file path => exact hservices.documentAt path
    | text document => exact .done _
    | object document => exact .done _
  exact hdocument.run_bind fun document => (hservices.convert document backend).run_bind
    fun converted => confined_run_liftM _

/-- An introspection is confined if the services are, and the accesses of its own entry. -/
theorem Configuration.confined_introspectWith {introspector : Introspector (Routine σ)}
    (environment : Environment) (retry : RetryPolicy) (c : Configuration)
    (hread : Confined own change (introspector.cache.read c.subject.fingerprint).run)
    (hwrite : ∀ text,
      Confined own change (introspector.cache.write c.subject.fingerprint text).run) :
    Confined own change (c.introspectWith introspector services environment retry).run := by
  cases c with
  | graphql backend =>
    -- The accesses of the entry are given, so only the generator is left, kind by kind.
    refine Introspector.confined_introspect _ hread hwrite ?_
    exact (backend.confined_schemaText hservices).run_bind fun sdl => confined_run_liftM _
  | federation federated =>
    refine Introspector.confined_introspect _ hread hwrite ?_
    have hsdls : Confined own change (federated.servers.mapM fun server : GraphQLBackend =>
        server.schemaText services.fetch).run :=
      confined_run_mapM fun server _ => GraphQLBackend.confined_schemaText hservices server
    exact hsdls.run_bind fun sdls => confined_run_liftM _
  | database backend =>
    refine Introspector.confined_introspect _ hread hwrite ?_
    cases backend.url.resolve environment with
    | none => exact .done _
    | some url =>
      exact Confined.run_bind (RetryPolicy.confined_callAgain hservices backend.kind url _ _)
        fun report => confined_run_liftM _
  | openApi backend =>
    have hgenerate := backend.confined_generate hservices
    show Confined own change (backend.introspect _ _ _).run
    unfold OpenApiBackend.introspect
    split
    · exact hgenerate
    · exact Introspector.confined_introspect _ hread hwrite hgenerate
    · exact Introspector.confined_introspect _ hread hwrite hgenerate

end Backends

/-! ## Applications -/

/-- What the introspections of an application work on: the state of the cache, and what the services
remember for each backend. -/
structure World (σ ρ : Type) where
  cache : σ
  memory : Nat → ρ

namespace World

variable {σ ρ α : Type}

/-- Runs a routine on the cache. -/
def onCache (routine : Routine σ α) : Routine (World σ ρ) α :=
  routine.focus (·.cache) fun cache world => { world with cache := cache }

/-- Runs a routine on what is remembered for one backend. -/
def onMemory (i : Nat) (routine : Routine ρ α) : Routine (World σ ρ) α :=
  routine.focus (·.memory i) fun memory world =>
    { world with memory := Function.update world.memory i memory }

/-- Whether two worlds are the same for one backend. -/
def Same (same : Fingerprint → σ → σ → Prop) (fingerprint : Fingerprint) (i : Nat)
    (w w' : World σ ρ) : Prop :=
  same fingerprint w.cache w'.cache ∧ w.memory i = w'.memory i

/-- Whether a change of the world is one of the parts of one backend only. -/
def SparingAt (same : Fingerprint → σ → σ → Prop) (fingerprint : Fingerprint) (i : Nat)
    (w w' : World σ ρ) : Prop :=
  Sparing same fingerprint w.cache w'.cache ∧ ∀ j, j ≠ i → w'.memory j = w.memory j

variable {same : Fingerprint → σ → σ → Prop} {fingerprint : Fingerprint} {i : Nat}

theorem confined_onCache {routine : Routine σ α}
    (h : Confined (same fingerprint) (Sparing same fingerprint) routine) :
    Confined (Same same fingerprint i) (SparingAt same fingerprint i)
      (onCache (ρ := ρ) routine) :=
  h.focus (fun _ _ hsame => hsame.1) (fun _ _ _ _ hsame hcache => ⟨hcache, hsame.2⟩)
    fun _ _ hcache => ⟨hcache, fun _ _ => rfl⟩

theorem confined_onMemory (routine : Routine ρ α) :
    Confined (Same same fingerprint i) (SparingAt same fingerprint i) (onMemory i routine) := by
  refine (confined_eq routine).focus (fun _ _ hsame => hsame.2) (fun s t a b hsame hmemory => ?_)
    fun s a _ => ⟨fun _ _ _ hsame => hsame, fun j hj => Function.update_of_ne hj _ _⟩
  obtain rfl : a = b := hmemory
  exact ⟨hsame.1, by simp⟩

theorem Same.of_sparingAt {other : Fingerprint} {j : Nat} (hfingerprint : fingerprint ≠ other)
    (hi : i ≠ j) {w w' v : World σ ρ} (hchange : SparingAt same other j w w')
    (hsame : Same same fingerprint i w v) : Same same fingerprint i w' v :=
  ⟨hchange.1 fingerprint hfingerprint v.cache hsame.1, (hchange.2 i hi).trans hsame.2⟩

end World

/-- A backend of an application, with those whom its introspection calls. They remember a value of
the type `ρ`. -/
structure Member (ρ : Type) where
  configuration : Configuration
  retry : RetryPolicy
  services : Services (Routine ρ)

namespace Member

variable {σ ρ : Type}

def fingerprint (member : Member ρ) : Fingerprint := member.configuration.subject.fingerprint

def introspection (member : Member ρ) (policy : Policy) (cache : Cache (Routine σ))
    (environment : Environment) (i : Nat) :
    ExceptT Error (Routine (World σ ρ)) (Composite member.configuration.Payload) :=
  member.configuration.introspectWith ⟨policy, cache.hoist World.onCache⟩
    (member.services.hoist (World.onMemory i)) environment member.retry

theorem confined_introspection (member : Member ρ) (policy : Policy) {cache : Cache (Routine σ)}
    {same : Fingerprint → σ → σ → Prop} (hcache : cache.KeepsApart same)
    (environment : Environment) (i : Nat) :
    Confined (World.Same same member.fingerprint i) (World.SparingAt same member.fingerprint i)
      (member.introspection policy cache environment i).run := by
  have hservices : (member.services.hoist (World.onMemory (σ := σ) i)).Confined
      (World.Same same member.fingerprint i) (World.SparingAt same member.fingerprint i) :=
    { fetch := fun backend => World.confined_onMemory _
      report := fun kind url => World.confined_onMemory _
      wait := fun millis => World.confined_onMemory _
      documentAt := fun path => World.confined_onMemory _
      convert := fun document backend => World.confined_onMemory _ }
  exact Configuration.confined_introspectWith hservices environment member.retry
    member.configuration (World.confined_onCache (hcache.read _))
    fun text => World.confined_onCache (hcache.write _ text)

end Member

/-- The application of some backends, added one after the other. -/
def Application.ofMembers {σ ρ : Type} (name : String) (policy : Policy)
    (cache : Cache (Routine σ)) (environment : Environment) (members : List (Member ρ)) :
    Application (World σ ρ) :=
  members.zipIdx.foldl (fun application (member, i) =>
    application.add member.configuration.asAny
      (member.introspection policy cache environment i)) (.named name)

section Result

variable {σ ρ : Type} {policy : Policy} {cache : Cache (Routine σ)} {environment : Environment}

theorem introspections_foldl_add {ι : Type} {α : ι → Type} (asAny : (x : ι) → α x → AnyPayload)
    (introspection : (x : ι) → ExceptT Error (Routine σ) (Composite (α x))) (items : List ι)
    (application : Application σ) :
    (items.foldl (fun application x => application.add (asAny x) (introspection x))
        application).introspections =
      application.introspections ++
        items.map fun x => (·.mapPayload (asAny x)) <$> introspection x := by
  induction items generalizing application with
  | nil => simp
  | cons x rest ih =>
    rw [List.foldl_cons, ih, List.map_cons, Application.add, List.append_assoc]
    rfl

theorem introspections_ofMembers (name : String) (members : List (Member ρ)) :
    (Application.ofMembers name policy cache environment members).introspections =
      members.zipIdx.map fun (member, i) => (·.mapPayload member.configuration.asAny) <$>
        member.introspection policy cache environment i :=
  introspections_foldl_add (fun x : Member ρ × Nat => x.1.configuration.asAny)
    (fun x => x.1.introspection policy cache environment x.2) members.zipIdx (.named name)

/-- The result of an introspection as one of an application. -/
def Member.anyResult (member : Member ρ)
    (result : Except Error (Composite member.configuration.Payload)) :
    Except Error (Composite AnyPayload) :=
  result.map (·.mapPayload member.configuration.asAny)

/-- An introspection as one of an application. -/
def Member.routine (member : Member ρ) (policy : Policy) (cache : Cache (Routine σ))
    (environment : Environment) (i : Nat) :
    Routine (World σ ρ) (Except Error (Composite AnyPayload)) :=
  ExceptT.run ((·.mapPayload member.configuration.asAny) <$>
    member.introspection policy cache environment i)

theorem Member.run_routine (member : Member ρ) (i : Nat) (world : World σ ρ) :
    (member.routine policy cache environment i).run world =
      (member.anyResult ((member.introspection policy cache environment i).run.run world).1,
        ((member.introspection policy cache environment i).run.run world).2) := by
  rw [routine, ExceptT.run_map]
  exact run_bind _ _ world

theorem Member.confined_routine (member : Member ρ) {same : Fingerprint → σ → σ → Prop}
    (hcache : cache.KeepsApart same) (i : Nat) :
    Confined (World.Same same member.fingerprint i) (World.SparingAt same member.fingerprint i)
      (member.routine policy cache environment i) :=
  (member.confined_introspection policy hcache environment i).run_map _

theorem length_introspections (name : String) (members : List (Member ρ)) :
    (Application.ofMembers name policy cache environment members).introspections.length =
      members.length := by
  rw [introspections_ofMembers, List.length_map, List.length_zipIdx]

theorem getElem?_routines (name : String) (members : List (Member ρ)) (i : Nat) :
    ((Application.ofMembers name policy cache environment members).introspections.map
        ExceptT.run)[i]? =
      members[i]?.map fun member => member.routine policy cache environment i := by
  rw [introspections_ofMembers, List.map_map, List.getElem?_map, List.getElem?_zipIdx,
    Option.map_map]
  simp [Function.comp_def, Member.routine]

/-- The fingerprint of the backend at a position. -/
def fingerprintAt (members : List (Member ρ)) (i : Nat) : Fingerprint :=
  (members[i]?.map Member.fingerprint).getD default

theorem fingerprintAt_of_getElem? {members : List (Member ρ)} {member : Member ρ} {i : Nat}
    (hi : members[i]? = some member) : fingerprintAt members i = member.fingerprint := by
  rw [fingerprintAt, hi, Option.map_some, Option.getD_some]

theorem fingerprintAt_ne {members : List (Member ρ)}
    (hdifferent : (members.map Member.fingerprint).Nodup) {i j : Nat} (hi : i < members.length)
    (hj : j < members.length) (hij : i ≠ j) :
    fingerprintAt members i ≠ fingerprintAt members j := by
  have hone := List.getElem?_eq_getElem hi
  have htwo := List.getElem?_eq_getElem hj
  rw [fingerprintAt_of_getElem? hone, fingerprintAt_of_getElem? htwo]
  intro hsame
  have hi' : i < (members.map Member.fingerprint).length := by rwa [List.length_map]
  refine hij ((List.getElem?_inj hi' hdifferent).1 ?_)
  rw [List.getElem?_map, List.getElem?_map, hone, htwo, Option.map_some, Option.map_some, hsame]

/-- **The backends of an application are independent.** Whatever the interleaving, every result is
the one that the introspection of the backend gives alone, and the entry of its fingerprint is the
one that it leaves alone. -/
theorem resolve_independent (name : String) (policy : Policy) (environment : Environment)
    {cache : Cache (Routine σ)} {same : Fingerprint → σ → σ → Prop} (hcache : cache.KeepsApart same)
    {members : List (Member ρ)} (hdifferent : (members.map Member.fingerprint).Nodup)
    (world : World σ ρ)
    (hworld : ∀ member ∈ members, same member.fingerprint world.cache world.cache) :
    let application := Application.ofMembers name policy cache environment members
    let routines := application.introspections.map ExceptT.run
    (∀ results last, Interleaves routines world results last →
      results.length = members.length ∧
      ∀ (i : Nat) (member : Member ρ), members[i]? = some member →
        let alone := (member.introspection policy cache environment i).run.run world
        results[i]? = some (member.anyResult alone.1) ∧
          same member.fingerprint last.cache alone.2.cache ∧
          cache.find member.fingerprint last.cache =
            cache.find member.fingerprint alone.2.cache) ∧
    Interleaves routines world (application.resolve.run world).1
      (application.resolve.run world).2 := by
  intro application routines
  refine ⟨fun results last h => ?_, interleaves_all routines world⟩
  have hroutine : ∀ i : Nat, routines[i]? =
      members[i]?.map fun member : Member ρ => member.routine policy cache environment i :=
    getElem?_routines name members
  have hlength : routines.length = members.length := by
    rw [List.length_map]
    exact length_introspections name members
  -- A member depends on its own entry and its own services, and changes nothing else.
  obtain ⟨hcount, hresults⟩ := h.independent
    (fun i => World.Same same (fingerprintAt members i) i)
    (fun i => World.SparingAt same (fingerprintAt members i) i)
    (fun i hi j hj hij w w' v hchange => World.Same.of_sparingAt
      (fingerprintAt_ne hdifferent (hlength ▸ hi) (hlength ▸ hj) hij) hij hchange)
    (fun i routine hi => by
      obtain ⟨member, hmember, rfl⟩ := Option.map_eq_some_iff.1 ((hroutine i).symm.trans hi)
      rw [fingerprintAt_of_getElem? hmember]
      exact member.confined_routine hcache i)
    (fun _ => world)
    (fun i hi => by
      have hmember := List.getElem?_eq_getElem (hlength ▸ hi : i < members.length)
      rw [fingerprintAt_of_getElem? hmember]
      exact ⟨hworld _ (List.mem_of_getElem? hmember), rfl⟩)
  refine ⟨hcount.trans hlength, fun i member hi => ?_⟩
  have hresult := hresults i _ ((hroutine i).trans (congrArg _ hi))
  rw [Member.run_routine, fingerprintAt_of_getElem? hi] at hresult
  exact ⟨hresult.1, hresult.2.1, hcache.find_eq hresult.2.1⟩

end Result

theorem Configuration.isDigest_fingerprint (configuration : Configuration) :
    configuration.subject.fingerprint.IsDigest := by
  cases configuration <;> exact ⟨_, _, rfl⟩

/-! ## An example -/

namespace Shop

/-- A server that cannot be reached. -/
def users : Configuration := .graphql (.ofUrl "http://users")

/-- A database whose engine is still starting when it is asked first. -/
def orders : Configuration := .database (.ofUrl .postgresql (.literal "postgres://orders"))

/-- The services of both, which remember how often the engine was called. -/
def services : Services (Routine Nat) where
  fetch _ := throw (.introspectionFailed "unreachable")
  engine := {
    report _ _ := do
      let earlier ← modifyGet fun calls => (calls, calls + 1)
      return { DatabaseReport.blank with
        success := decide (0 < earlier)
        graphqlSchema := "type Query { total: Int }" }
    wait := pause }
  documentAt _ := throw (.introspectionFailed "unreachable")
  convert _ _ := throw (.introspectionFailed "unreachable")

/-- The database as a member. -/
def database : Member Nat := ⟨orders, .default, services⟩

/-- The backends of a shop, with the same services. -/
def members : List (Member Nat) := [⟨users, .default, services⟩, database]

/-- Everything is kept. -/
def policy : Policy := { Policy.default with caching := true }

/-- The application of the shop, with a cache in memory. -/
def application : Application (World MemoryCache Nat) :=
  .ofMembers "shop" policy (MemoryCache.access.hoist atomic) (fun _ => none) members

/-- An empty cache, and services that have not been called. -/
def world : World MemoryCache Nat := ⟨.empty, fun _ => 0⟩

/-- A cache in a directory below the working directory. -/
def disk : DiskCache := ⟨"cache"⟩

/-- The same application with the cache on disk. -/
def onDisk : Application (World Files Nat) :=
  .ofMembers "shop" policy (disk.access.hoist atomic) (fun _ => none) members

/-- Only the working directory is there. -/
def diskWorld : World Files Nat := ⟨.ofHome ["srv"], fun _ => 0⟩

theorem nodup_fingerprints : (members.map Member.fingerprint).Nodup := by decide +kernel

end Shop

/-- A server that fails does not keep the database of a shop from its result, which is kept after
the second call of the engine. Where it is kept on disk, in a directory that is not there yet, the
database leaves the entry that it leaves alone. -/
theorem resolve_independent_shop :
    (∃ results last, Shop.application.resolve.run Shop.world = (results, last) ∧
      results.length = 2 ∧ results[0]? = some (.error (.introspectionFailed "unreachable")) ∧
      results[1]?.map (·.toOption.map (·.schema)) =
        some (some "type Query \x7b\n  total: Int\n\x7d\n") ∧
      last.cache.get? Shop.users.subject.fingerprint = none ∧
      (last.cache.get? Shop.orders.subject.fingerprint).isSome) ∧
    ∃ results last, Shop.onDisk.resolve.run Shop.diskWorld = (results, last) ∧
      let cache := Shop.disk.access.hoist atomic
      let alone := (Shop.database.introspection Shop.policy cache (fun _ => none) 1).run.run
        Shop.diskWorld
      results[1]? = some (Shop.database.anyResult alone.1) ∧
      cache.find Shop.orders.subject.fingerprint last.cache =
        cache.find Shop.orders.subject.fingerprint alone.2.cache := by
  refine ⟨?memory, ?disk⟩
  case memory =>
    have h := resolve_independent "shop" Shop.policy (fun _ => none) MemoryCache.keepsApart
      Shop.nodup_fingerprints Shop.world fun _ _ => rfl
    have hindependent := h.1
    have hresolve := h.2
    rw [← Shop.application] at hindependent hresolve
    have hall := hindependent _ _ hresolve
    have husers := hall.2 0 ⟨Shop.users, .default, Shop.services⟩ rfl
    have horders := hall.2 1 Shop.database rfl
    refine ⟨_, _, Prod.mk.eta.symm, hall.1, husers.1.trans ?_, ?_, husers.2.1.trans ?_, ?_⟩
    · decide +kernel
    · rw [horders.1]
      decide +kernel
    · decide +kernel
    · refine (congrArg Option.isSome horders.2.1).trans ?_
      decide +kernel
  case disk =>
    have hplain : Shop.disk.IsPlain := by
      unfold DiskCache.IsPlain
      decide
    have h := resolve_independent "shop" Shop.policy (fun _ => none) (DiskCache.keepsApart hplain)
      Shop.nodup_fingerprints Shop.diskWorld fun member _ =>
        .refl member.configuration.isDigest_fingerprint (DiskCache.isOrderly_ofHome ["srv"])
    have hindependent := h.1
    have hresolve := h.2
    rw [← Shop.onDisk] at hindependent hresolve
    obtain ⟨hresult, -, hfound⟩ := (hindependent _ _ hresolve).2 1 Shop.database rfl
    exact ⟨_, _, Prod.mk.eta.symm, hresult, hfound⟩

end Supergraph
