import Supergraph.Error
import Supergraph.Proofs.Routine.Interleaving

/-!
# Routines that do not influence each other

Two states may be the same in what one routine sees of them, and different otherwise. A routine is
*confined* (`Confined own change`) if its steps, taken from two states that are the same for it
(`own`), go on alike and leave states that are the same again, and if every step changes the state
only as it is allowed to (`change`).

**Theorem (`Interleaves.independent`).** If no routine may change what another one sees, then in
every interleaving each routine gives what it gives alone, from any state that is the same for it,
and the last state is the same for it as the one that it leaves alone.

**Proof.** By induction on the turns. Beside the common state each routine keeps one of its own, on
which it runs alone; after every turn the common state is the same for each routine as its own.

The rest of the file says which routines are confined: what is made of confined parts is, and so is
a routine that works on a part of the state (`focus`).
-/

namespace Supergraph

namespace Routine

variable {σ τ α β : Type}

/-- Whether a routine depends on no more of the state than `own` compares, and changes it only as
`change` allows. -/
inductive Confined (own change : σ → σ → Prop) : Routine σ α → Prop where
  | done (result : α) : Confined own change (.done result)
  | act {effect : σ → σ} {next : σ → Routine σ α}
      (hown : ∀ s t, own s t → next s = next t ∧ own (effect s) (effect t))
      (hchange : ∀ s t, own s t → change s (effect s))
      (hnext : ∀ s, Confined own change (next s)) : Confined own change (.act effect next)
  | wait (millis : Nat) {next : Routine σ α} (hnext : Confined own change next) :
      Confined own change (.wait millis next)

variable {own change : σ → σ → Prop}

/-! ## Independence -/

/-- A step from one state is matched by a step from every other that is the same for the routine. -/
theorem Confined.step {routine rest : Routine σ α} (h : Confined own change routine) {s s' t : σ}
    (hsame : own s t) (hstep : routine.step s = some (rest, s')) :
    ∃ t', routine.step t = some (rest, t') ∧ Confined own change rest ∧ own s' t' ∧
      (s' = s ∨ change s s') := by
  cases h with
  | done result => cases hstep
  | @act effect next hown hchange hnext =>
    obtain ⟨rfl, rfl⟩ := Prod.mk.injEq .. ▸ Option.some.inj hstep
    obtain ⟨hrest, hafter⟩ := hown s t hsame
    exact ⟨effect t, by rw [hrest]; rfl, hnext s, hafter, .inr (hchange s t hsame)⟩
  | wait millis hnext =>
    obtain ⟨rfl, rfl⟩ := Prod.mk.injEq .. ▸ Option.some.inj hstep
    exact ⟨t, rfl, hnext, hsame, .inl rfl⟩

/-- A whole run from one state is matched by the run from the other. -/
theorem Confined.run {routine : Routine σ α} (h : Confined own change routine) {s t : σ}
    (hsame : own s t) :
    (routine.run s).1 = (routine.run t).1 ∧ own (routine.run s).2 (routine.run t).2 := by
  induction h generalizing s t with
  | done result => exact ⟨rfl, hsame⟩
  | act hown _ _ ih =>
    obtain ⟨hrest, hafter⟩ := hown s t hsame
    rw [Routine.run, Routine.run, ← hrest]
    exact ih s hafter
  | wait millis _ ih => exact ih hsame

/-- **Confined routines are independent.** The state `starts i` is the one on which the routine `i`
runs alone. -/
theorem Interleaves.independent {routines : List (Routine σ α)} {s last : σ} {results : List α}
    (h : Interleaves routines s results last) (own change : Nat → σ → σ → Prop)
    (hapart : ∀ i < routines.length, ∀ j < routines.length, i ≠ j →
      ∀ s s' t, change j s s' → own i s t → own i s' t)
    (hconfined : ∀ i routine, routines[i]? = some routine → Confined (own i) (change i) routine)
    (starts : Nat → σ) (hstarts : ∀ i < routines.length, own i s (starts i)) :
    results.length = routines.length ∧ ∀ i routine, routines[i]? = some routine →
      results[i]? = some (routine.run (starts i)).1 ∧ own i last (routine.run (starts i)).2 := by
  induction h generalizing starts with
  | ended results s =>
    refine ⟨(List.length_map _).symm, fun i routine hi => ?_⟩
    obtain ⟨hlength, -⟩ := List.getElem?_eq_some_iff.1 hi
    obtain ⟨result, hresult, rfl⟩ := Option.map_eq_some_iff.1 (List.getElem?_map .. ▸ hi)
    exact ⟨hresult, hstarts i hlength⟩
  | @turn routines routine rest s s' last results j hj hstep _ ih =>
    obtain ⟨hlength, -⟩ := List.getElem?_eq_some_iff.1 hj
    obtain ⟨t', hstep', hrest, hown, hchange⟩ :=
      (hconfined j routine hj).step (hstarts j hlength) hstep
    -- The routine whose turn it is goes on alone as well; for the others nothing happens.
    have hconfined' : ∀ i other, (routines.set j rest)[i]? = some other →
        Confined (own i) (change i) other := by
      intro i other hi
      by_cases hij : i = j
      · subst hij
        rw [List.getElem?_set_self hlength] at hi
        exact Option.some.inj hi ▸ hrest
      · rw [List.getElem?_set_ne (Ne.symm hij)] at hi
        exact hconfined i other hi
    -- Its turn changes its own part only, on which none of the others depends.
    have hstarts' : ∀ i < routines.length, own i s' (Function.update starts j t' i) := by
      intro i hi
      by_cases hij : i = j
      · subst hij
        rwa [Function.update_self]
      · rw [Function.update_of_ne hij]
        rcases hchange with rfl | hchange
        · exact hstarts i hi
        · exact hapart i hi j hlength hij s s' _ hchange (hstarts i hi)
    rw [List.length_set] at ih
    obtain ⟨hcount, hresults⟩ := ih hapart hconfined' (Function.update starts j t') hstarts'
    refine ⟨hcount, fun i other hi => ?_⟩
    by_cases hij : i = j
    · subst hij
      obtain rfl := Option.some.inj (hj.symm.trans hi)
      have h := hresults i rest (List.getElem?_set_self hlength)
      rwa [Function.update_self, ← run_of_step hstep'] at h
    · have h := hresults i other ((List.getElem?_set_ne (Ne.symm hij)).trans hi)
      rwa [Function.update_of_ne hij] at h

/-! ## Confined routines -/

section Parts

variable {own change : σ → σ → Prop}

theorem Confined.bind {routine : Routine σ α} (h : Confined own change routine)
    {next : α → Routine σ β} (hnext : ∀ result, Confined own change (next result)) :
    Confined own change (routine.bind next) := by
  induction h with
  | done result => exact hnext result
  | act hown hchange _ ih =>
    refine .act (fun s t hsame => ?_) hchange ih
    obtain ⟨hrest, hafter⟩ := hown s t hsame
    exact ⟨by rw [hrest], hafter⟩
  | wait millis _ ih => exact .wait millis ih

/-- A single step that gives something. -/
def atomic (action : StateM σ α) : Routine σ α :=
  .act (fun state => (action.run state).2) fun state => .done (action.run state).1

theorem confined_atomic {action : StateM σ α}
    (hown : ∀ s t, own s t →
      (action.run s).1 = (action.run t).1 ∧ own (action.run s).2 (action.run t).2)
    (hchange : ∀ s t, own s t → change s (action.run s).2) :
    Confined own change (atomic action) :=
  .act (fun s t hsame => ⟨congrArg _ (hown s t hsame).1, (hown s t hsame).2⟩) hchange
    fun _ => .done _

/-- Runs a routine on a part of the state. -/
def focus (get : τ → σ) (set : σ → τ → τ) : Routine σ α → Routine τ α
  | .done result => .done result
  | .act effect next =>
    .act (fun state => set (effect (get state)) state) fun state => focus get set (next (get state))
  | .wait millis next => .wait millis (focus get set next)

/-- A routine is as confined on a part of the state as it is alone, if what it sees and changes of
the whole is what it sees and changes of the part. -/
theorem Confined.focus {routine : Routine σ α} (h : Confined own change routine) {get : τ → σ}
    {set : σ → τ → τ} {own' change' : τ → τ → Prop}
    (hget : ∀ s t, own' s t → own (get s) (get t))
    (hset : ∀ s t a b, own' s t → own a b → own' (set a s) (set b t))
    (hchange : ∀ s a, change (get s) a → change' s (set a s)) :
    Confined own' change' (focus get set routine) := by
  induction h with
  | done result => exact .done result
  | act hown hallowed _ ih =>
    refine .act (fun s t hsame => ?_) (fun s t hsame => ?_) fun s => ih (get s)
    · obtain ⟨hrest, hafter⟩ := hown (get s) (get t) (hget s t hsame)
      exact ⟨congrArg _ hrest, hset s t _ _ hsame hafter⟩
    · exact hchange s _ (hallowed (get s) (get t) (hget s t hsame))
  | wait millis _ ih => exact .wait millis ih

/-- A routine that has the state for itself. -/
theorem confined_eq (routine : Routine σ α) : Confined Eq (fun _ _ => True) routine := by
  induction routine with
  | done result => exact .done result
  | act effect next ih => exact .act (fun s t h => h ▸ ⟨rfl, rfl⟩) (fun _ _ _ => trivial) ih
  | wait millis next ih => exact .wait millis ih

/-! ## Routines that may fail -/

theorem Confined.run_bind {action : ExceptT Error (Routine σ) α}
    (h : Confined own change action.run) {next : α → ExceptT Error (Routine σ) β}
    (hnext : ∀ result, Confined own change (next result).run) :
    Confined own change (action >>= next).run := by
  rw [ExceptT.run_bind]
  refine Confined.bind h fun result => ?_
  cases result with
  | error error => exact .done _
  | ok result => exact hnext result

theorem Confined.run_lift {routine : Routine σ α} (h : Confined own change routine) :
    Confined own change (liftM routine : ExceptT Error (Routine σ) α).run :=
  h.bind fun _ => .done _

theorem Confined.run_map {action : ExceptT Error (Routine σ) α}
    (h : Confined own change action.run) (f : α → β) :
    Confined own change (f <$> action).run := by
  rw [ExceptT.run_map]
  exact h.bind fun _ => .done _

theorem confined_run_liftM (result : Except Error α) :
    Confined own change (liftM result : ExceptT Error (Routine σ) α).run := by
  cases result with
  | error error => exact .done _
  | ok result => exact .done _

theorem confined_run_mapM {f : α → ExceptT Error (Routine σ) β} {items : List α}
    (h : ∀ item ∈ items, Confined own change (f item).run) :
    Confined own change (items.mapM f).run := by
  induction items with
  | nil => exact .done _
  | cons item rest ih =>
    rw [List.mapM_cons]
    refine (h item List.mem_cons_self).run_bind fun result => ?_
    exact (ih fun item hitem => h item (List.mem_cons_of_mem _ hitem)).run_bind fun results =>
      .done _

end Parts

end Routine

end Supergraph
