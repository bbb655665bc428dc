import Supergraph.Proofs.Introspection.Steps
import Supergraph.Proofs.Routine.Confinement

/-!
# Caches that keep fingerprints apart

A cache keeps fingerprints apart (`Cache.KeepsApart`) if what an access gives and leaves depends on
the entry of its own fingerprint only, and no access changes the entry of another. What an entry is,
apart from its text, is up to the cache: the draft of a file may be part of it.

A cache in memory keeps fingerprints apart (`MemoryCache.keepsApart`). So does a cache that keeps
them apart and fails now and then, if it is each fingerprint's own accesses that make it fail
(`Cache.KeepsApart.failing`).
-/

namespace Supergraph

open Routine

/-- Whether a change of the state leaves all other fingerprints the same. -/
def Sparing {σ : Type} (same : Fingerprint → σ → σ → Prop) (fingerprint : Fingerprint) (s s' : σ) :
    Prop :=
  ∀ other, other ≠ fingerprint → ∀ t, same other s t → same other s' t

/-- Whether every access of a cache sees and changes nothing but the entry of its fingerprint. Two
states with the same entry for a fingerprint are `same` there. -/
structure Cache.KeepsApart {σ : Type} (cache : Cache (Routine σ))
    (same : Fingerprint → σ → σ → Prop) : Prop where
  read (fingerprint : Fingerprint) :
    Confined (same fingerprint) (Sparing same fingerprint) (cache.read fingerprint).run
  write (fingerprint : Fingerprint) (text : String) :
    Confined (same fingerprint) (Sparing same fingerprint) (cache.write fingerprint text).run

/-- What an access of a cache finds for a fingerprint. -/
def Cache.find {σ : Type} (cache : Cache (Routine σ)) (fingerprint : Fingerprint) (s : σ) :
    Except Error (Option String) :=
  ((cache.read fingerprint).run.run s).1

theorem Cache.KeepsApart.find_eq {σ : Type} {cache : Cache (Routine σ)}
    {same : Fingerprint → σ → σ → Prop} (h : cache.KeepsApart same) {fingerprint : Fingerprint}
    {s t : σ} (hsame : same fingerprint s t) :
    cache.find fingerprint s = cache.find fingerprint t :=
  ((h.read fingerprint).run hsame).1

/-- A cache with accesses of one step, where reading changes nothing. -/
theorem Cache.keepsApart_atomic {σ : Type} {cache : Cache (StateM σ)}
    {same : Fingerprint → σ → σ → Prop}
    (hread : ∀ fingerprint s, (perform (cache.read fingerprint).run s).2 = s)
    (hfound : ∀ fingerprint s t, same fingerprint s t →
      (perform (cache.read fingerprint).run s).1 = (perform (cache.read fingerprint).run t).1)
    (hwritten : ∀ fingerprint text s t, same fingerprint s t →
      (perform (cache.write fingerprint text).run s).1 =
          (perform (cache.write fingerprint text).run t).1 ∧
        same fingerprint (perform (cache.write fingerprint text).run s).2
          (perform (cache.write fingerprint text).run t).2)
    (hspares : ∀ fingerprint text s t, same fingerprint s t →
      Sparing same fingerprint s (perform (cache.write fingerprint text).run s).2) :
    (cache.hoist atomic).KeepsApart same where
  read fingerprint := by
    refine confined_atomic (fun s t hsame => ⟨hfound fingerprint s t hsame, ?_⟩) fun s t _ => ?_
    · show same fingerprint (perform (cache.read fingerprint).run s).2
        (perform (cache.read fingerprint).run t).2
      rwa [hread, hread]
    · show Sparing same fingerprint s (perform (cache.read fingerprint).run s).2
      rw [hread]
      exact fun _ _ _ => id
  write fingerprint text := confined_atomic (hwritten fingerprint text) (hspares fingerprint text)

/-- **A cache in memory keeps fingerprints apart.** -/
theorem MemoryCache.keepsApart :
    (MemoryCache.access.hoist atomic).KeepsApart fun fingerprint s t =>
      s.get? fingerprint = t.get? fingerprint := by
  refine Cache.keepsApart_atomic (fun _ _ => rfl) (fun _ _ _ hsame => congrArg Except.ok hsame)
    (fun fingerprint text s t _ => ⟨rfl, ?_⟩) fun fingerprint text s _ _ other hother t hsame => ?_
  · show (s.insert fingerprint text).get? fingerprint = (t.insert fingerprint text).get? _
    rw [get?_insert, get?_insert, if_pos rfl, if_pos rfl]
  · show (s.insert fingerprint text).get? other = _
    rw [get?_insert, if_neg hother.symm]
    exact hsame

/-! ## Caches that fail -/

namespace Cache

variable {σ : Type}

/-- An access that fails if `faults` says so for the number of earlier accesses of the fingerprint.
-/
def attempt {β : Type} (faults : Fingerprint → Nat → Option Error) (fingerprint : Fingerprint)
    (access : ExceptT Error (Routine σ) β) :
    ExceptT Error (Routine (σ × (Fingerprint → Nat))) β := do
  let earlier ← (atomic fun state => (state.2 fingerprint,
    (state.1, Function.update state.2 fingerprint (state.2 fingerprint + 1))) :
      Routine (σ × (Fingerprint → Nat)) Nat)
  match faults fingerprint earlier with
  | some error => throw error
  | none => access.run.focus Prod.fst fun s state => (s, state.2)

/-- The same cache, where some accesses fail. -/
def failing (faults : Fingerprint → Nat → Option Error) (cache : Cache (Routine σ)) :
    Cache (Routine (σ × (Fingerprint → Nat))) where
  read fingerprint := attempt faults fingerprint (cache.read fingerprint)
  write fingerprint text := attempt faults fingerprint (cache.write fingerprint text)

theorem confined_attempt {β : Type} {same : Fingerprint → σ → σ → Prop}
    (faults : Fingerprint → Nat → Option Error) {fingerprint : Fingerprint}
    {access : ExceptT Error (Routine σ) β}
    (h : Confined (same fingerprint) (Sparing same fingerprint) access.run) :
    let sameAlso := fun fingerprint (s t : σ × (Fingerprint → Nat)) =>
      same fingerprint s.1 t.1 ∧ s.2 fingerprint = t.2 fingerprint
    Confined (sameAlso fingerprint) (Sparing sameAlso fingerprint)
      (attempt faults fingerprint access).run := by
  intro sameAlso
  have hcount : Confined (sameAlso fingerprint) (Sparing sameAlso fingerprint)
      (atomic fun state => (state.2 fingerprint,
        (state.1, Function.update state.2 fingerprint (state.2 fingerprint + 1)))) := by
    refine confined_atomic (fun s t hsame => ⟨hsame.2, hsame.1, ?_⟩)
      fun s t _ other hother v hsame => ⟨hsame.1, ?_⟩
    · show Function.update s.2 fingerprint _ fingerprint = Function.update t.2 fingerprint _ _
      rw [Function.update_self, Function.update_self, hsame.2]
    · exact (Function.update_of_ne hother _ _).trans hsame.2
  refine hcount.run_lift.run_bind fun earlier => ?_
  cases faults fingerprint earlier with
  | some error => exact .done _
  | none =>
    exact h.focus (fun _ _ hsame => hsame.1) (fun _ _ _ _ hsame hafter => ⟨hafter, hsame.2⟩)
      fun _ _ hsparing other hother t hsame => ⟨hsparing other hother t.1 hsame.1, hsame.2⟩

/-- Failures that come for one fingerprint do not depend on others. -/
theorem KeepsApart.failing {cache : Cache (Routine σ)} {same : Fingerprint → σ → σ → Prop}
    (h : cache.KeepsApart same) (faults : Fingerprint → Nat → Option Error) :
    (cache.failing faults).KeepsApart fun fingerprint s t =>
      same fingerprint s.1 t.1 ∧ s.2 fingerprint = t.2 fingerprint where
  read fingerprint := confined_attempt faults (h.read fingerprint)
  write fingerprint text := confined_attempt faults (h.write fingerprint text)

end Cache

end Supergraph
