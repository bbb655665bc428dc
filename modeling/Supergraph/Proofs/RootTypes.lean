import Mathlib.Data.Set.Function
import Supergraph.Proofs.DocumentMaps

/-!
# Root types by operation

The root type of an operation is the one that the last `schema` definition names. Without such a
definition it is the declared type with the conventional name of the operation. A name that a
`schema` definition mentions is changed with all other names; the conventional name stays, whatever
becomes of the type (`typeOf_mapTypeNames_iff`).
-/

namespace Supergraph

/-- The root type of an operation. -/
def RootOperations.typeOf (roots : RootOperations) : OperationType → Option String
  | .query => roots.query
  | .mutation => roots.mutation
  | .subscription => roots.subscription

/-- The name that the root type of an operation has unless a `schema` definition names one. -/
def OperationType.conventionalName : OperationType → String
  | .query => "Query"
  | .mutation => "Mutation"
  | .subscription => "Subscription"

@[simp] theorem RootOperations.typeOf_mapTypeNames (f : String → String) (roots : RootOperations)
    (operation : OperationType) :
    (roots.mapTypeNames f).typeOf operation = (roots.typeOf operation).map f := by
  cases operation <;> rfl

namespace RootTypes

variable {document : Document} {operation : OperationType} {root : String}

theorem mem_names_iff_typeOf :
    root ∈ (RootTypes.ofDocument document).names ↔
      ∃ operation, (operations document).typeOf operation = some root := by
  simp only [names, ofDocument, List.mem_append, Option.mem_toList]
  constructor
  · rintro ((h | h) | h)
    · exact ⟨.query, h⟩
    · exact ⟨.mutation, h⟩
    · exact ⟨.subscription, h⟩
  · rintro ⟨operation, h⟩
    cases operation with
    | query => exact .inl (.inl h)
    | mutation => exact .inl (.inr h)
    | subscription => exact .inr h

theorem mem_names_of_typeOf (h : (operations document).typeOf operation = some root) :
    root ∈ (RootTypes.ofDocument document).names :=
  mem_names_iff_typeOf.2 ⟨operation, h⟩

/-- Whether conventional names do not count. -/
theorem filterMap_named?_ne_nil : document.definitions.filterMap named? ≠ [] ↔
    ∃ directives roots, Definition.schema directives roots ∈ document.definitions := by
  constructor
  · intro h
    obtain ⟨roots, hroots⟩ := List.exists_mem_of_ne_nil _ h
    obtain ⟨definition, hdefinition, hnamed⟩ := List.mem_filterMap.1 hroots
    cases definition with
    | schema directives others => exact ⟨directives, others, hdefinition⟩
    | type | extension | directive => cases hnamed
  · rintro ⟨directives, roots, hdefinition⟩
    exact List.ne_nil_of_mem (List.mem_filterMap.2 ⟨_, hdefinition, rfl⟩)

theorem typeOf_eq_conventional (hnone : document.definitions.filterMap named? = []) :
    (operations document).typeOf operation =
      conventional document operation.conventionalName := by
  rw [operations, hnone]
  cases operation <;> rfl

theorem conventional_eq_some_iff {name : String} :
    conventional document name = some root ↔ name = root ∧ root ∈ document.declaredNames := by
  rw [conventional]
  by_cases h : name ∈ document.declaredNames
  · rw [if_pos (List.contains_iff_mem.2 h), Option.some.injEq]
    exact ⟨fun e => ⟨e, e ▸ h⟩, fun e => e.1⟩
  · rw [if_neg (mt List.contains_iff_mem.1 h)]
    constructor
    · intro e
      cases e
    · rintro ⟨rfl, hdeclared⟩
      exact absurd hdeclared h

/-- Without a `schema` definition the root types are the declared ones with conventional names. -/
theorem typeOf_eq_some_iff (hnone : document.definitions.filterMap named? = []) :
    (operations document).typeOf operation = some root ↔
      operation.conventionalName = root ∧ root ∈ document.declaredNames := by
  rw [typeOf_eq_conventional hnone, conventional_eq_some_iff]

theorem mem_names_iff (hnone : document.definitions.filterMap named? = []) :
    root ∈ (RootTypes.ofDocument document).names ↔
      (∃ operation : OperationType, operation.conventionalName = root) ∧
        root ∈ document.declaredNames := by
  rw [mem_names_iff_typeOf, ← exists_and_right]
  exact exists_congr fun operation => typeOf_eq_some_iff hnone

/-! ## Changed names -/

variable {f : String → String}

/-- `f` changes the name of no type that is a root by its name, and gives no other type that name.
-/
def Spares (f : String → String) (document : Document) (operation : OperationType) : Prop :=
  ∀ declared ∈ document.declaredNames,
    f declared = operation.conventionalName ↔ declared = operation.conventionalName

instance (f : String → String) (document : Document) (operation : OperationType) :
    Decidable (Spares f document operation) :=
  inferInstanceAs (Decidable (∀ _ ∈ _, _))

/-- Whether the root type of an operation is found under its changed name: a `schema` definition
names it, or its conventional name is left alone. -/
def Follows (f : String → String) (document : Document) (operation : OperationType) : Prop :=
  (∃ directives roots, Definition.schema directives roots ∈ document.definitions) ∨
    Spares f document operation

/-- A conventional name follows the change of names only if it is left alone. -/
theorem conventional_mapTypeNames_iff
    (hinj : Set.InjOn f {name | name ∈ document.typeNames}) :
    conventional (document.mapTypeNames f) operation.conventionalName =
        (conventional document operation.conventionalName).map f ↔
      Spares f document operation := by
  have hmoved : ∀ root, conventional (document.mapTypeNames f) operation.conventionalName =
        some root ↔
      operation.conventionalName = root ∧ ∃ declared ∈ document.declaredNames, f declared = root :=
    fun root => by
      rw [conventional_eq_some_iff, Document.declaredNames_mapTypeNames, List.mem_map]
  -- A root by its name has to stay one, and where there is none, none may come up.
  by_cases hdeclared : operation.conventionalName ∈ document.declaredNames
  · have hold : conventional document operation.conventionalName =
        some operation.conventionalName := conventional_eq_some_iff.2 ⟨rfl, hdeclared⟩
    rw [hold, Option.map_some, hmoved]
    constructor
    · rintro ⟨hkept, -⟩ declared hmem
      refine ⟨fun e => ?_, fun e => ?_⟩
      · exact hinj (Document.mem_typeNames_of_declared hmem)
          (Document.mem_typeNames_of_declared hdeclared) (e.trans hkept)
      · rw [e, ← hkept]
    · intro hspares
      have hkept := (hspares _ hdeclared).2 rfl
      exact ⟨hkept.symm, _, hdeclared, rfl⟩
  · have hold : conventional document operation.conventionalName = none :=
      Option.eq_none_iff_forall_ne_some.2 fun root e => by
        obtain ⟨rfl, h⟩ := conventional_eq_some_iff.1 e
        exact hdeclared h
    rw [hold, Option.map_none, Option.eq_none_iff_forall_ne_some]
    constructor
    · intro hnone declared hmem
      refine iff_of_false (fun e => ?_) fun e => hdeclared (e ▸ hmem)
      exact hnone _ ((hmoved _).2 ⟨rfl, declared, hmem, e⟩)
    · intro hspares root e
      obtain ⟨rfl, declared, hmem, e⟩ := (hmoved root).1 e
      exact hdeclared ((hspares declared hmem).1 e ▸ hmem)

/-- **Root types follow a change of names** exactly if a `schema` definition names them or their
conventional name is left alone. -/
theorem typeOf_mapTypeNames_iff (hinj : Set.InjOn f {name | name ∈ document.typeNames})
    (operation : OperationType) :
    (operations (document.mapTypeNames f)).typeOf operation =
        ((operations document).typeOf operation).map f ↔ Follows f document operation := by
  rw [Follows, ← filterMap_named?_ne_nil]
  by_cases hnone : document.definitions.filterMap named? = []
  · have hmoved : (document.mapTypeNames f).definitions.filterMap named? = [] := by
      rw [filterMap_named?_mapTypeNames, hnone, List.map_nil]
    rw [typeOf_eq_conventional hnone, typeOf_eq_conventional hmoved,
      conventional_mapTypeNames_iff hinj]
    exact (or_iff_right (not_not.2 hnone)).symm
  · have hoperations := operations_mapTypeNames (f := f) fun h => absurd h hnone
    rw [hoperations, RootOperations.typeOf_mapTypeNames]
    exact iff_of_true rfl (.inl hnone)

end RootTypes

end Supergraph
