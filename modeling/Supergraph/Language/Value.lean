import Supergraph.Float64.Shortest
import Supergraph.SortedMap

/-!
# Values, directives and type references

The parts that schema documents and selection sets share. The members of an object value are held
in the order of their names, each name once.
-/

namespace Supergraph

/-- A value written in a document. A variable stands only in the arguments of directives and of
selected fields. -/
inductive Value where
  | variable (name : String)
  | int (value : Int)
  | float (value : Float64)
  | string (text : String)
  | boolean (value : Bool)
  | null
  | enum (name : String)
  | list (items : List Value)
  | object (members : List (String × Value))
deriving Repr, Inhabited

/-- The object value with the given members. Of two members with one name the later one counts. -/
def Value.ofMembers (members : List (String × Value)) : Value := .object (sortEntries members)

/-- A directive applied somewhere in a document. -/
structure Directive where
  name : String
  arguments : List (String × Value)
deriving Repr, Inhabited

/-- The value of a directive's first argument called `name`, if that is a string. -/
def Directive.stringArgument? (directive : Directive) (name : String) : Option String :=
  match directive.arguments.find? (·.1 = name) with
  | some (_, .string text) => some text
  | _ => none

/-- A reference to a type: a name inside list and non-null wrappers. -/
inductive TypeRef where
  | named (name : String)
  | list (item : TypeRef)
  | nonNull (type : TypeRef)
deriving DecidableEq, Repr, Inhabited

namespace TypeRef

/-- The name at the bottom of the wrappers. -/
def inner : TypeRef → String
  | named name => name
  | list item => item.inner
  | nonNull type => type.inner

/-- Applies `f` to the name at the bottom of the wrappers. -/
def mapInner (f : String → String) : TypeRef → TypeRef
  | named name => named (f name)
  | list item => list (item.mapInner f)
  | nonNull type => nonNull (type.mapInner f)

@[simp] theorem inner_mapInner (f : String → String) (type : TypeRef) :
    (type.mapInner f).inner = f type.inner := by
  induction type <;> simp_all [mapInner, inner]

@[simp] theorem mapInner_mapInner (f g : String → String) (type : TypeRef) :
    (type.mapInner f).mapInner g = type.mapInner (g ∘ f) := by
  induction type <;> simp_all [mapInner]

@[simp] theorem mapInner_id (type : TypeRef) : type.mapInner id = type := by
  induction type <;> simp_all [mapInner]

end TypeRef

end Supergraph
