/-!
# Routines

A routine changes a shared state in steps and may pause between them. Routines side by side take
turns: one goes on until it pauses or ends, and only then the others do; when all of them pause, the
one with the least time left goes on, and of several the first one. So the steps between two pauses
of a routine see no change from outside.

Time passes only in pauses, and only as long as no routine can go on. The clock that ends a pause is
set thirty years ahead at most, so a longer pause is over by then.
-/

namespace Supergraph

/-- A computation on a state of type `σ` with pauses. -/
inductive Routine (σ α : Type) : Type where
  /-- Ends with a result. -/
  | done (result : α)
  /-- Changes the state by `effect`, and goes on knowing the state before. -/
  | act (effect : σ → σ) (next : σ → Routine σ α)
  /-- Pauses for some milliseconds before it goes on. -/
  | wait (millis : Nat) (next : Routine σ α)

namespace Routine

variable {σ α β : Type}

/-! ## One after the other -/

/-- Goes on with `next` where `routine` ends. -/
def bind (routine : Routine σ α) (next : α → Routine σ β) : Routine σ β :=
  match routine with
  | .done result => next result
  | .act effect rest => .act effect fun state => (rest state).bind next
  | .wait millis rest => .wait millis (rest.bind next)

instance : Monad (Routine σ) where
  pure := done
  bind := bind

theorem bind_done (routine : Routine σ α) : routine.bind done = routine := by
  induction routine with
  | done result => rfl
  | act effect next ih => simp only [bind, ih]
  | wait millis next ih => simp only [bind, ih]

theorem bind_assoc {γ : Type} (routine : Routine σ α) (f : α → Routine σ β)
    (g : β → Routine σ γ) :
    (routine.bind f).bind g = routine.bind fun result => (f result).bind g := by
  induction routine with
  | done result => rfl
  | act effect next ih => simp only [bind, ih]
  | wait millis next ih => simp only [bind, ih]

instance : LawfulMonad (Routine σ) :=
  LawfulMonad.mk' (Routine σ) bind_done (fun _ _ => rfl) bind_assoc

instance : MonadStateOf σ (Routine σ) where
  get := .act id .done
  set state := .act (fun _ => state) fun _ => .done ()
  modifyGet f := .act (fun state => (f state).2) fun state => .done (f state).1

/-- How far ahead the clock can be set: thirty years of 365 days, in milliseconds. -/
def furthestAlarm : Nat := 946080000000

/-- Pauses for some milliseconds, of which there may be none: the others still have their turn. -/
def pause (millis : Nat) : Routine σ Unit := .wait (min millis furthestAlarm) (.done ())

/-! ## Side by side -/

/-- What is left of a pause. It is over when no time is left. -/
def waitRest (millis : Nat) (next : Routine σ α) : Routine σ α :=
  if millis = 0 then next else .wait millis next

/-- Runs `other` while something else pauses for some milliseconds; `resume` takes over, with what
is left of `other`, when that time is over. -/
def meanwhile (millis : Nat) (resume : Routine σ α → Routine σ β) : Routine σ α → Routine σ β
  | .done result => .wait millis (resume (.done result))
  | .act effect next => .act effect fun state => meanwhile millis resume (next state)
  | .wait other next =>
    -- Of two pauses that end at once, that of the first routine is over first.
    if millis ≤ other then .wait millis (resume (waitRest (other - millis) next))
    else .wait other (meanwhile (millis - other) resume next)

/-- Two routines side by side. -/
def both : Routine σ α → Routine σ β → Routine σ (α × β)
  | .done result, other => (result, ·) <$> other
  | .act effect next, other => .act effect fun state => both (next state) other
  | .wait millis next, other => meanwhile millis (both next) other

/-- Routines side by side, with their results in the same order. -/
def all : List (Routine σ α) → Routine σ (List α)
  | [] => .done []
  | routine :: rest => (fun (result, results) => result :: results) <$> both routine (all rest)

/-! ## Runs -/

/-- The result of a routine and the state after it. -/
def run : Routine σ α → σ → α × σ
  | .done result, state => (result, state)
  | .act effect next, state => run (next state) (effect state)
  | .wait _ next, state => run next state

/-- How many milliseconds a routine takes. -/
def duration : Routine σ α → σ → Nat
  | .done _, _ => 0
  | .act effect next, state => duration (next state) (effect state)
  | .wait millis next, state => millis + duration next state

theorem run_bind (routine : Routine σ α) (next : α → Routine σ β) (state : σ) :
    (routine.bind next).run state = (next (routine.run state).1).run (routine.run state).2 := by
  induction routine generalizing state with
  | done result => rfl
  | act effect rest ih => exact ih state (effect state)
  | wait millis rest ih => exact ih state

example : let writer := fun (c : Char) (millis : Nat) => (do
      modify (· ++ [c]); pause millis; modify (· ++ [c]) : Routine (List Char) Unit)
    ((all [writer 'a' 20, writer 'b' 10, writer 'c' 0]).run []).2 = "abccba".toList := by
  decide +kernel
example : let writer := fun (c : Char) (millis : Nat) => (do
      modify (· ++ [c]); pause millis; modify (· ++ [c]) : Routine (List Char) Unit)
    ((all [writer 'a' 5, writer 'b' 5]).run []).2 = "abab".toList ∧
      (all [writer 'a' 5, writer 'b' 5]).duration [] = 5 := by
  decide +kernel
example : let writer := fun (c : Char) => (do
      modify (· ++ [c]); pause 0; modify (· ++ [c]); pause 0; modify (· ++ [c]) :
        Routine (List Char) Unit)
    ((all [writer 'a', writer 'b']).run []).2 = "ababab".toList := by
  decide +kernel

end Routine

end Supergraph
