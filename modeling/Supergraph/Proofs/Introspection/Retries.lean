import Supergraph.Proofs.Introspection.Offline

/-!
# Attempts to introspect a database

The engine that introspects databases is called again while it reports failure, up to a number of
attempts that is at least one. Here it gives the reports of an infinite sequence, one for each call,
and every call is recorded.

**Theorem (`attempts_bounded`).** The engine is called until its first success, at most as often as
the policy allows. The last report counts: it is the result if it is one of success, and otherwise
its message is the failure. If every attempt fails, or the report of success cannot be made into a
composite, the introspection of a database fails, without another call of the engine and without one
that writes the cache.

**Proof.** The sequence of reports decides which attempt is the last one (`IsLast`), and the calls
up to there follow by induction on the retries that are left (`perform_replayAgain`). An
introspection that finds nothing in the cache is its generator, and a failure of that is passed on
(`perform_introspect_of_miss`).
-/

namespace Supergraph

variable {σ : Type}

/-! ## Reports one after the other -/

/-- Whether a call asks the engine for a report. -/
def Call.isReport : Call → Bool
  | .report _ _ => true
  | _ => false

/-- How often the engine has been called. -/
def Trace.attempts (t : Trace σ) : Nat := t.calls.countP Call.isReport

/-- The trace after one more call, which changes nothing. -/
def Trace.noted (t : Trace σ) (call : Call) : Trace σ := ⟨t.state, t.calls ++ [call]⟩

/-- The engine that gives the next report at every call, whatever it is called with. -/
def DatabaseEngine.replaying (reports : Nat → DatabaseReport) :
    DatabaseEngine (StateM (Trace σ)) where
  report kind url t := (reports t.attempts, t.noted (.report kind url))
  wait millis t := ((), t.noted (.wait millis))

/-- Whether the report at `k` is the first one of success. -/
def IsFirstSuccess (reports : Nat → DatabaseReport) (k : Nat) : Prop :=
  (reports k).success ∧ ∀ n < k, ¬ (reports n).success

theorem DatabaseReport.outcome_of_success {report : DatabaseReport} (h : report.success) :
    report.outcome = .ok report := if_pos h

theorem DatabaseReport.outcome_of_failure {report : DatabaseReport} (h : ¬ report.success) :
    report.outcome = .error (.introspectionFailed report.message) := if_neg h

/-! ## The last attempt -/

namespace RetryPolicy

/-- The most attempts that are made. -/
def mostAttempts (retry : RetryPolicy) : Nat := max 1 retry.maxAttempts

/-- The calls of `n` attempts, with the delay between any two of them. -/
def attempts (retry : RetryPolicy) (kind : DatabaseKind) (url : String) (n : Nat) : List Call :=
  (List.replicate n (.report kind url)).intersperse (.wait retry.delayMillis)

/-- Whether the attempt at `last` is the last one, if `retries` may follow the first one. -/
structure IsLast (reports : Nat → DatabaseReport) (retries last : Nat) : Prop where
  le : last ≤ retries
  failed : ∀ n < last, ¬ (reports n).success
  ends : (reports last).success ∨ last = retries

section Attempts

variable (reports : Nat → DatabaseReport) (kind : DatabaseKind) (url : String)

def replay (retry : RetryPolicy) : ExceptT Error (StateM (Trace σ)) DatabaseReport :=
  let engine := DatabaseEngine.replaying reports
  retry.run (engine.report kind url) engine.wait

/-- The same, with the delay and the number of retries given. -/
def replayAgain (millis retries : Nat) : StateM (Trace σ) (Except Error DatabaseReport) :=
  let engine := DatabaseEngine.replaying reports
  callAgain (engine.report kind url) (engine.wait millis) retries

variable {reports} {retry : RetryPolicy}

theorem perform_replayAgain_zero (millis : Nat) (t : Trace σ) :
    perform (replayAgain reports kind url millis 0) t =
      ((reports t.attempts).outcome, t.noted (.report kind url)) := rfl

theorem perform_replayAgain_succ (millis retries : Nat) (t : Trace σ) :
    perform (replayAgain reports kind url millis (retries + 1)) t =
      match (reports t.attempts).outcome with
      | .ok report => (.ok report, t.noted (.report kind url))
      | .error _ => perform (replayAgain reports kind url millis retries)
          ((t.noted (.report kind url)).noted (.wait millis)) := by
  rw [replayAgain, callAgain, perform_bind]
  show perform (match (reports t.attempts).outcome with | .ok _ => _ | .error _ => _) _ = _
  cases (reports t.attempts).outcome <;> rfl

theorem attempts_noted (millis : Nat) (t : Trace σ) :
    ((t.noted (.report kind url)).noted (.wait millis)).attempts = t.attempts + 1 := by
  simp [Trace.attempts, Trace.noted, List.countP_cons, Call.isReport]

/-- The engine is called up to the last attempt, and its report there counts. -/
theorem perform_replayAgain (millis : Nat) {retries last : Nat} (t : Trace σ)
    (hlast : IsLast (fun n => reports (t.attempts + n)) retries last) :
    perform (replayAgain reports kind url millis retries) t =
      ((reports (t.attempts + last)).outcome, ⟨t.state, t.calls ++
        (List.replicate (last + 1) (.report kind url)).intersperse (.wait millis)⟩) := by
  induction retries generalizing t last with
  | zero =>
    obtain rfl : last = 0 := Nat.le_zero.1 hlast.le
    exact perform_replayAgain_zero kind url millis t
  | succ retries ih =>
    rw [perform_replayAgain_succ]
    cases last with
    | zero =>
      have hsuccess : (reports t.attempts).success := hlast.ends.resolve_right (by simp)
      rw [DatabaseReport.outcome_of_success hsuccess]
      exact Prod.ext (DatabaseReport.outcome_of_success hsuccess).symm rfl
    | succ last =>
      -- The first attempt fails, and after the pause the same engine is one report further.
      have hfailure : ¬ (reports t.attempts).success := hlast.failed 0 last.succ_pos
      have hshift (n : Nat) : t.attempts + 1 + n = t.attempts + (n + 1) := by omega
      let t' := (t.noted (.report kind url)).noted (.wait millis)
      have hlast' : IsLast (fun n => reports (t'.attempts + n)) retries last := {
        le := Nat.le_of_succ_le_succ hlast.le
        failed n hn := by
          simp only [t', attempts_noted, hshift]
          exact hlast.failed (n + 1) (Nat.succ_lt_succ hn)
        ends := by
          simp only [t', attempts_noted, hshift]
          exact hlast.ends.imp_right Nat.succ.inj }
      have hrest := ih t' hlast'
      rw [attempts_noted, hshift] at hrest
      rw [DatabaseReport.outcome_of_failure hfailure]
      refine hrest.trans ?_
      simp [t', Trace.noted, List.replicate_succ]

/-! ## What the sequence of reports decides -/

theorem isLast_of_isFirstSuccess {k : Nat} (h : IsFirstSuccess reports k)
    (hk : k < retry.mostAttempts) : IsLast reports (retry.maxAttempts - 1) k where
  le := by unfold mostAttempts at hk; omega
  failed := h.2
  ends := .inl h.1

theorem mostAttempts_pos (retry : RetryPolicy) : 0 < retry.mostAttempts :=
  Nat.lt_of_lt_of_le Nat.one_pos (Nat.le_max_left ..)

theorem isLast_of_failed (h : ∀ n < retry.mostAttempts, ¬ (reports n).success) :
    IsLast reports (retry.maxAttempts - 1) (retry.mostAttempts - 1) where
  le := by unfold mostAttempts; omega
  failed n hn := h n (by omega)
  ends := .inr (by unfold mostAttempts; omega)

variable {t : Trace σ} (hfresh : t.attempts = 0)

include hfresh

theorem perform_replay {last : Nat} (hlast : IsLast reports (retry.maxAttempts - 1) last) :
    perform (replay reports kind url retry).run t =
      ((reports last).outcome, ⟨t.state, t.calls ++ retry.attempts kind url (last + 1)⟩) := by
  have hlast' : IsLast (fun n => reports (t.attempts + n)) (retry.maxAttempts - 1) last := by
    simpa only [hfresh, Nat.zero_add] using hlast
  have h := perform_replayAgain kind url retry.delayMillis t hlast'
  rwa [hfresh, Nat.zero_add] at h

/-- The first success is the result, if there are enough attempts. -/
theorem perform_replay_of_isFirstSuccess {k : Nat} (h : IsFirstSuccess reports k)
    (hk : k < retry.mostAttempts) :
    perform (replay reports kind url retry).run t =
      (.ok (reports k), ⟨t.state, t.calls ++ retry.attempts kind url (k + 1)⟩) := by
  rw [perform_replay kind url hfresh (isLast_of_isFirstSuccess h hk),
    DatabaseReport.outcome_of_success h.1]

/-- Where every attempt fails, the message of the last one is the failure. -/
theorem perform_replay_of_failed (h : ∀ n < retry.mostAttempts, ¬ (reports n).success) :
    perform (replay reports kind url retry).run t =
      (.error (.introspectionFailed (reports (retry.mostAttempts - 1)).message),
        ⟨t.state, t.calls ++ retry.attempts kind url retry.mostAttempts⟩) := by
  have hlast := h _ (Nat.sub_one_lt_of_lt retry.mostAttempts_pos)
  rw [perform_replay kind url hfresh (isLast_of_failed h), DatabaseReport.outcome_of_failure hlast,
    Nat.sub_add_cancel retry.mostAttempts_pos]

end Attempts

end RetryPolicy

/-! ## Introspections -/

/-- The calls that look a subject up, if the policy says so. -/
def Policy.reads (policy : Policy) (subject : Subject) : List Call :=
  if policy.readsCache then subject.reads else []

section Introspections

variable {policy : Policy} {o : Collaborators σ} {s : σ}

/-- An introspection that finds nothing in the cache is its generator. -/
theorem Introspector.perform_introspect_of_miss {α : Type} {codec : Json.Codec α}
    {subject : Subject} (honline : policy.offline = false) (hreads : o.cache.ReadsOnly)
    (hmiss : policy.readsCache → o.cache.entry? codec subject s = none)
    (generate : ExceptT Error (StateM (Trace σ)) α) :
    perform (introspect ⟨policy, o.recorded.cache⟩ codec subject generate).run ⟨s, []⟩ =
      perform (refresh ⟨policy, o.recorded.cache⟩ codec subject generate).run
        ⟨s, policy.reads subject⟩ := by
  have hasks : asks ⟨policy, o.recorded.cache⟩ subject =
      (policy.readsCache && ! subject.refresh.disableCache) := rfl
  rw [perform_introspect honline, hasks, Policy.reads, Subject.reads]
  cases hpolicy : policy.readsCache with
  | false => rfl
  | true =>
    have hnone := hmiss hpolicy
    rw [Cache.entry?] at hnone
    cases hdisable : subject.refresh.disableCache with
    | true => rfl
    | false =>
      -- The one call that is recorded is the read, and it leaves the cache as it is.
      have hread : perform (o.recorded.cache.read subject.fingerprint).run ⟨s, []⟩ =
          ((perform (o.cache.read subject.fingerprint).run s).1,
            ⟨s, [.read subject.fingerprint]⟩) :=
        congrArg (Prod.mk _) (congrArg (Trace.mk · _) (hreads subject.fingerprint s))
      have hlookUp : perform (lookUp ⟨policy, o.recorded.cache⟩ codec subject.fingerprint)
          ⟨s, []⟩ = (none, ⟨s, [.read subject.fingerprint]⟩) := by
        rw [perform_lookUp, hread, ← hnone, hdisable]
        rcases (perform (o.cache.read subject.fingerprint).run s).1 with _ | _ | _ <;> rfl
      simp only [Bool.not_false, Bool.and_true, if_true, hlookUp]
      rfl

variable {reports : Nat → DatabaseReport} {retry : RetryPolicy} {backend : DatabaseBackend}
  {environment : Environment} {url : String}

/-- The introspection of a database of which the cache knows nothing. -/
theorem DatabaseBackend.perform_introspect_of_miss (honline : policy.offline = false)
    (hreads : o.cache.ReadsOnly) (hurl : backend.url.resolve environment = some url)
    (hmiss : policy.readsCache →
      o.cache.entry? (Composite.codec DatabasePayload.codec) backend.subject s = none) :
    perform (backend.introspect ⟨policy, o.recorded.cache⟩ environment
        (.replaying reports) retry).run ⟨s, []⟩ =
      perform (Introspector.refresh ⟨policy, o.recorded.cache⟩
        (Composite.codec DatabasePayload.codec) backend.subject do
          let report ← RetryPolicy.replay reports backend.kind url retry
          backend.composite report).run ⟨s, policy.reads backend.subject⟩ := by
  rw [introspect, hurl]
  exact Introspector.perform_introspect_of_miss honline hreads hmiss _

theorem DatabaseBackend.perform_generate (backend : DatabaseBackend)
    (report : ExceptT Error (StateM (Trace σ)) DatabaseReport) (t : Trace σ) :
    perform (do backend.composite (← report) :
        ExceptT Error (StateM (Trace σ)) (Composite DatabasePayload)).run t =
      match perform report.run t with
      | (.ok report, t') => (backend.composite report, t')
      | (.error error, t') => (.error error, t') := by
  rw [ExceptT.run_bind, perform_bind]
  rcases perform report.run t with ⟨error | report, t'⟩
  · rfl
  · show perform (ExceptT.run (liftM (backend.composite report))) t' =
      (backend.composite report, t')
    cases backend.composite report <;> rfl

theorem Policy.attempts_reads (policy : Policy) (subject : Subject) (s : σ) :
    (⟨s, policy.reads subject⟩ : Trace σ).attempts = 0 := by
  unfold reads Subject.reads
  split_ifs <;> rfl

/-- **Attempts are bounded.** The engine is called until its first success, at most as often as the
policy allows and at least once, and its last report counts. An introspection of a database that
cannot use it fails after the same calls, and none of them writes the cache. -/
theorem attempts_bounded (reports : Nat → DatabaseReport) (retry : RetryPolicy) (s : σ) :
    let engine := DatabaseEngine.replaying (σ := σ) reports
    let most := max 1 retry.maxAttempts
    let lastFailure := Error.introspectionFailed (reports (most - 1)).message
    (∀ kind url,
      let run := perform (retry.run (engine.report kind url) engine.wait).run ⟨s, []⟩
      (∀ k, IsFirstSuccess reports k →
        run = (if k < most then .ok (reports k) else .error lastFailure,
          ⟨s, retry.attempts kind url (min (k + 1) most)⟩)) ∧
      ((∀ n, ¬ (reports n).success) →
        run = (.error lastFailure, ⟨s, retry.attempts kind url most⟩))) ∧
    ∀ (policy : Policy) (o : Collaborators σ) (backend : DatabaseBackend)
      (environment : Environment) (url : String),
      policy.offline = false → backend.url.resolve environment = some url →
      o.cache.ReadsOnly →
      (policy.readsCache →
        o.cache.entry? (Composite.codec DatabasePayload.codec) backend.subject s = none) →
      let run := perform
        (backend.introspect ⟨policy, o.recorded.cache⟩ environment engine retry).run ⟨s, []⟩
      ((∀ n < most, ¬ (reports n).success) →
        run = (.error lastFailure, ⟨s, policy.reads backend.subject ++
          retry.attempts backend.kind url most⟩)) ∧
      ∀ k < most, IsFirstSuccess reports k → ∀ error, backend.composite (reports k) = .error error →
        run = (.error error, ⟨s, policy.reads backend.subject ++
          retry.attempts backend.kind url (k + 1)⟩) := by
  intro engine most lastFailure
  refine ⟨fun kind url => ⟨fun k hk => ?_, fun h => ?_⟩,
    fun policy o backend environment url honline hurl hreads hmiss => ⟨fun h => ?_, ?_⟩⟩
  · have hstart : (⟨s, []⟩ : Trace σ).attempts = 0 := rfl
    -- A success that comes too late is not waited for.
    by_cases henough : k < most
    · rw [if_pos henough, Nat.min_eq_left henough]
      exact RetryPolicy.perform_replay_of_isFirstSuccess kind url hstart hk henough
    · have hmost : most ≤ k := Nat.le_of_not_lt henough
      rw [if_neg henough, Nat.min_eq_right (Nat.le_succ_of_le hmost)]
      exact RetryPolicy.perform_replay_of_failed kind url hstart
        fun n hn => hk.2 n (Nat.lt_of_lt_of_le hn hmost)
  · exact RetryPolicy.perform_replay_of_failed kind url rfl fun n _ => h n
  · rw [DatabaseBackend.perform_introspect_of_miss honline hreads hurl hmiss,
      Introspector.perform_refresh, DatabaseBackend.perform_generate,
      RetryPolicy.perform_replay_of_failed backend.kind url (policy.attempts_reads ..) h]
    rfl
  · intro k henough hk error herror
    rw [DatabaseBackend.perform_introspect_of_miss honline hreads hurl hmiss,
      Introspector.perform_refresh, DatabaseBackend.perform_generate,
      RetryPolicy.perform_replay_of_isFirstSuccess backend.kind url (policy.attempts_reads ..) hk
        henough]
    simp only [herror]

end Introspections

/-! ## A database that answers at the second call -/

/-- The reports of an engine that is refused at first and then gives no schema. -/
def unreadable : Nat → DatabaseReport
  | 0 => { DatabaseReport.blank with message := "refused" }
  | _ => { DatabaseReport.blank with success := true, graphqlSchema := "type Query \x7b" }

/-- Two attempts are enough for the report and one is not. The schema in it cannot be read, so an
introspection fails with the place of the error, and nothing is kept. -/
theorem attempts_bounded_unreadable :
    let engine := DatabaseEngine.replaying (σ := MemoryCache) unreadable
    let call := engine.report .sqlite "file:db"
    let policy : Policy := { Policy.default with caching := true }
    let backend := DatabaseBackend.ofUrl .sqlite (.literal "file:db")
    let environment : Environment := fun _ => none
    let report := Call.report .sqlite "file:db"
    IsFirstSuccess unreadable 1 ∧
      perform (RetryPolicy.run ⟨0, 10⟩ call engine.wait).run ⟨.empty, []⟩ =
        (.error (.introspectionFailed "refused"), ⟨.empty, [report]⟩) ∧
      perform (RetryPolicy.run ⟨2, 10⟩ call engine.wait).run ⟨.empty, []⟩ =
        (.ok (unreadable 1), ⟨.empty, [report, .wait 10, report]⟩) ∧
      perform (backend.introspect ⟨policy, answering.recorded.cache⟩ environment engine ⟨0, 10⟩).run
        ⟨.empty, []⟩ = (.error (.introspectionFailed "refused"),
          ⟨.empty, [.read backend.subject.fingerprint, report]⟩) ∧
      perform (backend.introspect ⟨policy, answering.recorded.cache⟩ environment engine ⟨2, 10⟩).run
        ⟨.empty, []⟩ = (.error (.invalidSchema ⟨1, 13⟩),
          ⟨.empty, [.read backend.subject.fingerprint, report, .wait 10, report]⟩) := by
  intro engine call policy backend environment report
  have hfirst : IsFirstSuccess unreadable 1 := ⟨rfl, by decide⟩
  have hcomposite : backend.composite (unreadable 1) = .error (.invalidSchema ⟨1, 13⟩) := by
    decide +kernel
  have hmiss : policy.readsCache → answering.cache.entry? (Composite.codec DatabasePayload.codec)
      backend.subject MemoryCache.empty = none := fun _ => rfl
  obtain ⟨hone, hone'⟩ := attempts_bounded unreadable ⟨0, 10⟩ MemoryCache.empty
  obtain ⟨htwo, htwo'⟩ := attempts_bounded unreadable ⟨2, 10⟩ MemoryCache.empty
  refine ⟨hfirst, (hone .sqlite "file:db").1 1 hfirst, (htwo .sqlite "file:db").1 1 hfirst, ?_, ?_⟩
  · exact (hone' policy answering backend environment "file:db" rfl rfl MemoryCache.readsOnly
      hmiss).1 (by decide)
  · exact (htwo' policy answering backend environment "file:db" rfl rfl MemoryCache.readsOnly
      hmiss).2 1 (by decide) hfirst _ hcomposite

end Supergraph
