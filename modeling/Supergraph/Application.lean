import Supergraph.Composite
import Supergraph.Routine

/-!
# Applications

An application is made of several backends. Their introspections run side by side on one state, and
one that fails does not stop the others.
-/

namespace Supergraph

/-- The introspections of the backends of one application, on a state of type `σ`. -/
structure Application (σ : Type) where
  name : String
  introspections : List (ExceptT Error (Routine σ) (Composite AnyPayload))

namespace Application

variable {σ : Type}

/-- The application without backends. -/
def named (name : String) : Application σ := ⟨name, []⟩

/-- Adds a backend. It is introspected only when the application is resolved. -/
def add {α : Type} (application : Application σ) (asAny : α → AnyPayload)
    (introspection : ExceptT Error (Routine σ) (Composite α)) : Application σ :=
  { application with
    introspections := application.introspections ++ [(·.mapPayload asAny) <$> introspection] }

def size (application : Application σ) : Nat := application.introspections.length

def isEmpty (application : Application σ) : Bool := application.introspections.isEmpty

/-- The results of all introspections, in the order they were added. -/
def resolve (application : Application σ) :
    Routine σ (List (Except Error (Composite AnyPayload))) :=
  .all (application.introspections.map ExceptT.run)

end Application

end Supergraph
