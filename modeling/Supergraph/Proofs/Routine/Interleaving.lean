import Mathlib.Data.List.Basic
import Supergraph.Routine

/-!
# Routines side by side

Routines that share a state can run side by side in many ways. In general nothing is known but that
every routine takes its own steps one after the other: in each turn any one of them that has not
ended takes a step (`Interleaves`). What `all` does is more orderly, since a routine there goes on
until it pauses, and a pause has a length.

**Theorem (`interleaves_all`).** What `all` gives, and the state it leaves, come from one of these
interleavings.

**Proof.** `all` is a routine of its own, whose steps are those of the routines in some order,
except that its pauses are cut to other lengths (`Schedules`). A routine put beside a schedule makes
a schedule again (`schedules_beside`), by induction on the routine and, while it pauses, on the
schedule.
-/

namespace Supergraph

namespace Routine

variable {σ α : Type}

/-! ## Interleavings -/

/-- What is left of a routine after its next step, and the state after the step. -/
def step : Routine σ α → σ → Option (Routine σ α × σ)
  | .done _, _ => none
  | .act effect next, state => some (next state, effect state)
  | .wait _ next, state => some (next, state)

/-- The ways for routines to run side by side from a state until all have ended, with their results
and the last state. -/
inductive Interleaves : List (Routine σ α) → σ → List α → σ → Prop where
  | ended (results : List α) (state : σ) : Interleaves (results.map .done) state results state
  | turn {routines : List (Routine σ α)} {routine rest : Routine σ α} {state state' last : σ}
      {results : List α} (i : Nat) (hi : routines[i]? = some routine)
      (hstep : routine.step state = some (rest, state'))
      (hrest : Interleaves (routines.set i rest) state' results last) :
      Interleaves routines state results last

theorem run_of_step {routine rest : Routine σ α} {state state' : σ}
    (h : routine.step state = some (rest, state')) : routine.run state = rest.run state' := by
  cases routine with
  | done result => cases h
  | act effect next =>
    obtain ⟨rfl, rfl⟩ := Prod.mk.injEq .. ▸ Option.some.inj h
    rfl
  | wait millis next =>
    obtain ⟨rfl, rfl⟩ := Prod.mk.injEq .. ▸ Option.some.inj h
    rfl

/-! ## Schedules -/

/-- Whether the steps of a routine are those of several others in some order, where pauses may have
other lengths, and its result is the list of theirs. -/
inductive Schedules : List (Routine σ α) → Routine σ (List α) → Prop where
  | ended (results : List α) : Schedules (results.map .done) (.done results)
  | act {routines : List (Routine σ α)} {effect : σ → σ} {next : σ → Routine σ α}
      {rest : σ → Routine σ (List α)} (i : Nat) (hi : routines[i]? = some (.act effect next))
      (hrest : ∀ state, Schedules (routines.set i (next state)) (rest state)) :
      Schedules routines (.act effect rest)
  | passed {routines : List (Routine σ α)} {millis : Nat} {next : Routine σ α}
      {schedule : Routine σ (List α)} (i : Nat) (hi : routines[i]? = some (.wait millis next))
      (hrest : Schedules (routines.set i next) schedule) : Schedules routines schedule
  | wait {routines : List (Routine σ α)} {schedule : Routine σ (List α)} (millis : Nat)
      (hrest : Schedules routines schedule) : Schedules routines (.wait millis schedule)

theorem Schedules.interleaves {routines : List (Routine σ α)} {schedule : Routine σ (List α)}
    (h : Schedules routines schedule) (state : σ) :
    Interleaves routines state (schedule.run state).1 (schedule.run state).2 := by
  induction h generalizing state with
  | ended results => exact .ended results state
  | act i hi _ ih => exact .turn i hi rfl (ih state _)
  | passed i hi _ ih => exact .turn i hi rfl (ih state)
  | wait millis _ ih => exact ih state

/-- Two routines side by side, with the result of one in front of the results of the other. -/
def beside (routine : Routine σ α) (schedule : Routine σ (List α)) : Routine σ (List α) :=
  (fun (result, results) => result :: results) <$> both routine schedule

theorem schedules_done_beside {routines : List (Routine σ α)} {schedule : Routine σ (List α)}
    (h : Schedules routines schedule) (result : α) :
    Schedules (.done result :: routines) (beside (.done result) schedule) := by
  induction h with
  | ended results => exact .ended (result :: results)
  | act i hi _ ih => exact .act (i + 1) hi ih
  | passed i hi _ ih => exact .passed (i + 1) hi ih
  | wait millis _ ih => exact .wait millis ih

theorem Schedules.waitRest {routines : List (Routine σ α)} {schedule : Routine σ (List α)}
    (h : Schedules routines schedule) (millis : Nat) :
    Schedules routines (waitRest millis schedule) := by
  unfold Routine.waitRest
  split_ifs
  · exact h
  · exact h.wait millis

/-- While a routine pauses, the schedule beside it goes on, until `next` can. -/
theorem schedules_wait_beside {next : Routine σ α}
    (hnext : ∀ {routines : List (Routine σ α)} {schedule : Routine σ (List α)},
      Schedules routines schedule → Schedules (next :: routines) (beside next schedule))
    {routines : List (Routine σ α)} {schedule : Routine σ (List α)}
    (h : Schedules routines schedule) (total millis : Nat) :
    Schedules (.wait total next :: routines) (beside (.wait millis next) schedule) := by
  induction h generalizing millis with
  | ended results => exact .wait millis (.passed 0 rfl (hnext (.ended results)))
  | act i hi _ ih => exact .act (i + 1) hi fun state => ih state millis
  | passed i hi _ ih => exact .passed (i + 1) hi (ih millis)
  | @wait routines schedule other h ih =>
    show Schedules _ (_ <$> meanwhile millis (both next) (.wait other schedule))
    rw [meanwhile]
    split_ifs
    · exact .wait millis (.passed 0 rfl (hnext (h.waitRest (other - millis))))
    · exact .wait other (ih (millis - other))

theorem schedules_beside (routine : Routine σ α) {routines : List (Routine σ α)}
    {schedule : Routine σ (List α)} (h : Schedules routines schedule) :
    Schedules (routine :: routines) (beside routine schedule) := by
  induction routine generalizing routines schedule with
  | done result => exact schedules_done_beside h result
  | act effect next ih => exact .act 0 rfl fun state => ih state h
  | wait millis next ih => exact schedules_wait_beside ih h millis millis

theorem schedules_all (routines : List (Routine σ α)) : Schedules routines (all routines) := by
  induction routines with
  | nil => exact .ended []
  | cons routine rest ih => exact schedules_beside routine ih

/-- **Taking turns is an interleaving.** -/
theorem interleaves_all (routines : List (Routine σ α)) (state : σ) :
    Interleaves routines state ((all routines).run state).1 ((all routines).run state).2 :=
  (schedules_all routines).interleaves state

end Routine

end Supergraph
