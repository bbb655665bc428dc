import Supergraph.Introspection.Introspector

/-!
# Introspections on a state

Where the cache and the generator are actions on a state, an introspection gives a result and leaves
a state. This file says which, one equation per operation, for every cache and every generator:
where a cache fails to be read there is nothing to find (`perform_lookUp`), where it fails to be
written the result is the same (`perform_refresh`), and whether the generator runs at all depends on
what was found (`perform_introspect`) or on nothing (`perform_repoll`).
-/

namespace Supergraph

/-- What an action gives from a state, and the state it leaves. -/
def perform {σ β : Type} (action : StateM σ β) (s : σ) : β × σ := action s

theorem perform_bind {σ β γ : Type} (first : StateM σ β) (next : β → StateM σ γ) (s : σ) :
    perform (first >>= next) s = perform (next (perform first s).1) (perform first s).2 := rfl

theorem perform_liftM {σ β : Type} (action : StateM σ β) (s : σ) :
    perform (liftM action : ExceptT Error (StateM σ) β).run s =
      (.ok (perform action s).1, (perform action s).2) := rfl

namespace Introspector

variable {σ α : Type} {introspector : Introspector (StateM σ)} {codec : Json.Codec α}
  {subject : Subject}

theorem asks_of_caching (h : introspector.policy.caching = true) :
    introspector.asks subject = ! subject.refresh.disableCache := by
  simp [asks, Policy.readsCache, h]

theorem keeps_of_caching (h : introspector.policy.caching = true) :
    introspector.keeps subject = ! subject.refresh.disableCache := by
  simp [keeps, h]

/-- The state once a fresh result has been kept, if it is kept at all. -/
def kept (introspector : Introspector (StateM σ)) (codec : Json.Codec α) (subject : Subject)
    (value : α) (s : σ) : σ :=
  if introspector.keeps subject then
    (perform (introspector.cache.write subject.fingerprint (codec.print value)).run s).2
  else s

theorem perform_lookUp (fingerprint : Fingerprint) (s : σ) :
    perform (introspector.lookUp codec fingerprint) s =
      match perform (introspector.cache.read fingerprint).run s with
      | (.ok (some text), s') => (codec.parse? text, s')
      | (.ok none, s') => (none, s')
      | (.error _, s') => (none, s') := by
  show perform ((introspector.cache.read fingerprint).run >>= _) s = _
  rw [perform_bind]
  rcases perform (introspector.cache.read fingerprint).run s with ⟨_ | _ | _, _⟩ <;> rfl

theorem perform_refresh (generate : ExceptT Error (StateM σ) α) (s : σ) :
    perform (introspector.refresh codec subject generate).run s =
      match perform generate.run s with
      | (.ok value, s') => (.ok value, introspector.kept codec subject value s')
      | (.error error, s') => (.error error, s') := by
  rw [refresh, ExceptT.run_bind, perform_bind]
  rcases perform generate.run s with ⟨_ | value, s'⟩
  · rfl
  · by_cases h : introspector.keeps subject
    · simp only [h, if_true, kept]
      rfl
    · simp only [h, kept]
      rfl

theorem perform_introspect (honline : introspector.policy.offline = false)
    (generate : ExceptT Error (StateM σ) α) (s : σ) :
    perform (introspector.introspect codec subject generate).run s =
      match if introspector.asks subject then
          perform (introspector.lookUp codec subject.fingerprint) s
        else (none, s) with
      | (some value, s') => (.ok value, s')
      | (none, s') => perform (introspector.refresh codec subject generate).run s' := by
  -- Only offline is the generator kept from running.
  have hgoes : introspector.online subject (introspector.refresh codec subject generate) =
      introspector.refresh codec subject generate := by
    rw [online, honline]
    rfl
  rw [introspect, hgoes]
  by_cases h : introspector.asks subject
  · rw [if_pos h, if_pos h]
    rw [ExceptT.run_bind, perform_bind, perform_liftM]
    rcases perform (introspector.lookUp codec subject.fingerprint) s with ⟨_ | value, s'⟩ <;> rfl
  · rw [if_neg h, if_neg h]
    rfl

theorem perform_repoll [BEq α] (honline : introspector.policy.offline = false) (previous : α)
    (generate : ExceptT Error (StateM σ) α) (s : σ) :
    perform (introspector.repoll codec subject previous generate).run s =
      match perform generate.run s with
      | (.ok value, s') =>
        if value == previous then (.ok .unchanged, s')
        else (.ok (.changed value), introspector.kept codec subject value s')
      | (.error error, s') => (.error error, s') := by
  rw [repoll, online, honline]
  show perform (ExceptT.run (generate >>= _)) s = _
  rw [ExceptT.run_bind, perform_bind]
  rcases perform generate.run s with ⟨_ | value, s'⟩
  · rfl
  · by_cases heq : value == previous
    · simp only [heq, if_true]
      rfl
    · by_cases h : introspector.keeps subject
      · simp only [heq, h, if_true, kept]
        rfl
      · simp only [heq, h, kept]
        rfl

end Introspector

end Supergraph
