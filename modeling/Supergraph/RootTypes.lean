import Supergraph.Query.Document
import Supergraph.Schema.Document

/-!
# Root operation types

The entry points of a schema are the fields of its root types. A `schema` definition names them, the
last one if there are several; without one they are the declared types called `Query`, `Mutation`
and `Subscription`.
-/

namespace Supergraph

/-- The root types of a document, and the type names it declares in document order. -/
structure RootTypes where
  query : Option String
  mutation : Option String
  subscription : Option String
  declared : List String
deriving DecidableEq, Repr, Inhabited

/-- What a type name is in a document. -/
inductive TypeStatus where
  | root (operation : OperationType)
  | notRoot
  | notFound
deriving DecidableEq, Repr, Inhabited

namespace RootTypes

/-- The root operations that a definition names. -/
def named? : Definition → Option RootOperations
  | .schema _ roots => some roots
  | _ => none

/-- `name` if the document declares a type of that name. -/
def conventional (document : Document) (name : String) : Option String :=
  if document.declaredNames.contains name then some name else none

/-- The root operations of a document. -/
def operations (document : Document) : RootOperations :=
  match (document.definitions.filterMap named?).getLast? with
  | some roots => roots
  | none => ⟨conventional document "Query", conventional document "Mutation",
      conventional document "Subscription"⟩

/-- The root types of a document. -/
def ofDocument (document : Document) : RootTypes :=
  let roots := operations document
  ⟨roots.query, roots.mutation, roots.subscription, document.declaredNames⟩

/-- The names of the root types. -/
def names (roots : RootTypes) : List String :=
  roots.query.toList ++ roots.mutation.toList ++ roots.subscription.toList

/-- What `name` is. A root type need not be declared. -/
def status (roots : RootTypes) (name : String) : TypeStatus :=
  if roots.query = some name then .root .query
  else if roots.mutation = some name then .root .mutation
  else if roots.subscription = some name then .root .subscription
  else if roots.declared.contains name then .notRoot
  else .notFound

/-- Whether `name` is a root type. -/
def isRoot (roots : RootTypes) (name : String) : Bool :=
  match roots.status name with
  | .root _ => true
  | .notRoot => false
  | .notFound => false

theorem isRoot_eq_contains (roots : RootTypes) (name : String) :
    roots.isRoot name = roots.names.contains name := by
  rcases roots with ⟨q, m, s, declared⟩
  simp only [isRoot, status, names, Option.toList]
  cases q <;> cases m <;> cases s <;> grind

end RootTypes

end Supergraph
