import Supergraph.Backend.Database

/-!
# Retries

The engine that introspects databases is called until it reports success, at most as often as the
policy says and at least once, with the policy's delay between two calls. When every call fails, the
message of the last report counts.
-/

namespace Supergraph

/-- How often the engine is called, and how long to wait between two calls. -/
structure RetryPolicy where
  maxAttempts : Nat
  delayMillis : Nat
deriving DecidableEq, Repr, Inhabited

/-- Five attempts, a second apart. -/
def RetryPolicy.default : RetryPolicy := ⟨5, 1000⟩

/-- A report of success, or the failure that a report stands for. -/
def DatabaseReport.outcome (report : DatabaseReport) : Except Error DatabaseReport :=
  if report.success then .ok report else .error (.introspectionFailed report.message)

namespace RetryPolicy

variable {m : Type → Type} [Monad m]

/-- Calls the engine, and again up to the given number of times while it fails. -/
def callAgain (call : m DatabaseReport) (wait : m Unit) : Nat → m (Except Error DatabaseReport)
  | 0 => do return (← call).outcome
  | retries + 1 => do
    match (← call).outcome with
    | .ok report => return .ok report
    | .error _ =>
      wait
      callAgain call wait retries

/-- Calls the engine as often as the policy allows, until it reports success. -/
def run (policy : RetryPolicy) (call : m DatabaseReport) (wait : Nat → m Unit) :
    ExceptT Error m DatabaseReport :=
  callAgain call (wait policy.delayMillis) (policy.maxAttempts - 1)

end RetryPolicy

end Supergraph
