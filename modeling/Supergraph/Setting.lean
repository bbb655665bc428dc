/-!
# Settings and engine variables

A `Setting` is given by the user, literally or by the name of an environment variable. It is looked
up while a backend is introspected, and handed on to the execution engine as an `EngineVariable`,
which the engine looks up again when it starts.
-/

namespace Supergraph

/-- The environment variables that are set. -/
abbrev Environment := String → Option String

/-- A value that a user gives. -/
inductive Setting where
  | literal (text : String)
  | environment (name : String) (default : Option String)
deriving DecidableEq, Repr, Inhabited

/-- Where the engine finds the value of a variable. -/
inductive EngineVariableKind where
  | static
  | environment
  | placeholder
deriving DecidableEq, Repr, Inhabited

/-- A value that the engine looks up. Only the members that belong to its kind count. -/
structure EngineVariable where
  kind : EngineVariableKind
  content : String
  environmentName : String
  environmentDefault : String
  placeholderName : String
deriving DecidableEq, Repr, Inhabited

namespace EngineVariable

/-- A variable with a fixed value. -/
def static (content : String) : EngineVariable := ⟨.static, content, "", "", ""⟩

/-- A variable with the value of an environment variable. -/
def environment (name : String) (default : Option String) : EngineVariable :=
  ⟨.environment, "", name, default.getD "", ""⟩

end EngineVariable

namespace Setting

/-- The value now. There is none if the environment variable is not set and has no default. -/
def resolve (environment : Environment) : Setting → Option String
  | .literal text => some text
  | .environment name default => (environment name).or default

/-- The setting as a variable of the engine. -/
def toEngine : Setting → EngineVariable
  | .literal text => .static text
  | .environment name default => .environment name default

end Setting

end Supergraph
