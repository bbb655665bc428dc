import Mathlib.Tactic.FinCases
import Supergraph.Namespace
import Supergraph.Proofs.DocumentMaps

/-!
# Names with a namespace

A namespace moves type names and the names of root fields. If no root type and no skipped root field
already looks as if the namespace stood in front of it, the moved names are different from all
others and from each other. Then types that were different stay different, root types stay root
types, and no other type becomes one.
-/

namespace Supergraph

namespace Namespace

/-- Whether `name` begins like a name with the namespace in front of it. -/
def IsQualified (ns : Namespace) (name : String) : Prop := ∃ rest, name = ns.qualify rest

/-- No root type and no skipped root field looks as if the namespace stood in front of it. -/
structure Fits (ns : Namespace) (roots : RootTypes) : Prop where
  roots : ∀ name ∈ roots.names, ¬ ns.IsQualified name
  skipped : ∀ name ∈ ns.skippedRootFields, ¬ ns.IsQualified name

theorem name_ofName {name : String} (h : name ≠ "") (skipped : List String) :
    (ofName (some name) skipped).name = some name := by
  simp [ofName, h]

section Names

variable {ns : Namespace} {p : String} (hp : ns.name = some p) {roots : RootTypes}

theorem isRoot_iff {name : String} : roots.isRoot name ↔ name ∈ roots.names := by
  rw [RootTypes.isRoot_eq_contains, List.contains_iff_mem]

include hp

theorem qualify_eq (name : String) : ns.qualify name = p ++ "_" ++ name := by
  simp [qualify, hp]

theorem isEmpty_eq_false : ns.isEmpty = false := by
  simp [isEmpty, hp]

theorem qualify_inj {a b : String} : ns.qualify a = ns.qualify b ↔ a = b := by
  rw [qualify_eq hp, qualify_eq hp, String.append_right_inj]

/-- A name without an underscore has no namespace in front of it. -/
theorem not_isQualified {name : String} (h : '_' ∉ name.toList) : ¬ ns.IsQualified name := by
  rintro ⟨rest, rfl⟩
  refine h ?_
  rw [qualify_eq hp]
  simp

theorem not_isQualified_of_isBuiltinScalar {name : String} (h : isBuiltinScalar name) :
    ¬ ns.IsQualified name := by
  have hscalars : ∀ name ∈ builtinScalars, '_' ∉ name.toList := by decide
  exact not_isQualified hp (hscalars name (List.contains_iff_mem.1 h))

theorem qualifiesType_iff {name : String} :
    ns.qualifiesType roots name ↔ name ∉ roots.names ∧ ¬ isBuiltinScalar name := by
  simp [qualifiesType, isEmpty_eq_false hp, RootTypes.isRoot_eq_contains]

omit hp in
theorem exists_name {typeName : String} (h : ns.qualifiesType roots typeName) :
    ∃ p, ns.name = some p := by
  cases hname : ns.name with
  | none => simp [qualifiesType, isEmpty, hname] at h
  | some p => exact ⟨p, rfl⟩

omit hp in
theorem typeName_of_mem {name : String} (h : name ∈ roots.names) :
    ns.typeName roots name = name := by
  simp [typeName, qualifiesType, isRoot_iff.2 h]

/-- A type name either looks qualified or stays as it is. -/
theorem typeName_cases (hfits : ns.Fits roots) (name : String) :
    (ns.qualifiesType roots name ∧ ns.typeName roots name = ns.qualify name) ∨
      (¬ ns.IsQualified name ∧ ns.typeName roots name = name) := by
  by_cases h : ns.qualifiesType roots name
  · exact .inl ⟨h, if_pos h⟩
  · refine .inr ⟨?_, if_neg h⟩
    by_cases hroot : name ∈ roots.names
    · exact hfits.roots name hroot
    · refine not_isQualified_of_isBuiltinScalar hp (by_contra fun hscalar => h ?_)
      exact (qualifiesType_iff hp).2 ⟨hroot, hscalar⟩

theorem typeName_injective (hfits : ns.Fits roots) : Function.Injective (ns.typeName roots) := by
  intro a b e
  rcases typeName_cases hp hfits a with ⟨-, ha⟩ | ⟨hqa, ha⟩ <;>
    rcases typeName_cases hp hfits b with ⟨-, hb⟩ | ⟨hqb, hb⟩ <;> rw [ha, hb] at e
  · exact (qualify_inj hp).1 e
  · exact absurd ⟨a, e.symm⟩ hqb
  · exact absurd ⟨b, e⟩ hqa
  · exact e

/-- Exactly the root types are root types after qualification. -/
theorem typeName_mem_names (hfits : ns.Fits roots) {name : String} :
    ns.typeName roots name ∈ roots.names ↔ name ∈ roots.names := by
  refine ⟨fun h => ?_, fun h => (typeName_of_mem h).symm ▸ h⟩
  rcases typeName_cases hp hfits name with ⟨-, e⟩ | ⟨-, e⟩
  · exact absurd ⟨name, e⟩ (hfits.roots _ h)
  · exact e ▸ h

theorem rootFieldName_injective_of_skipped
    (hskipped : ∀ name ∈ ns.skippedRootFields, ¬ ns.IsQualified name) :
    Function.Injective ns.rootFieldName := by
  have hcases : ∀ name, ns.rootFieldName name = ns.qualify name ∨
      (¬ ns.IsQualified name ∧ ns.rootFieldName name = name) := by
    intro name
    by_cases h : name ∈ ns.skippedRootFields
    · exact .inr ⟨hskipped name h, by simp [rootFieldName, qualifiesRootField, h]⟩
    · exact .inl (by simp [rootFieldName, qualifiesRootField, h, isEmpty_eq_false hp])
  intro a b e
  rcases hcases a with ha | ⟨hqa, ha⟩ <;> rcases hcases b with hb | ⟨hqb, hb⟩ <;> rw [ha, hb] at e
  · exact (qualify_inj hp).1 e
  · exact absurd ⟨a, e.symm⟩ hqb
  · exact absurd ⟨b, e⟩ hqa
  · exact e

theorem rootFieldName_injective (hfits : ns.Fits roots) : Function.Injective ns.rootFieldName :=
  rootFieldName_injective_of_skipped hp hfits.skipped

theorem fieldName_injective (hfits : ns.Fits roots) (typeName : String) :
    Function.Injective (ns.fieldName roots typeName) := by
  intro a b e
  unfold fieldName at e
  split_ifs at e
  · exact rootFieldName_injective hp hfits e
  · exact e

end Names

/-! ## The document in the composed schema -/

theorem containers_applyToDocument (ns : Namespace) (document : Document) :
    (ns.applyToDocument document).containers = document.containers.map fun container =>
      (container.mapTypeNames (ns.typeName (.ofDocument document))).mapFields fun typeName field =>
        { field with name := ns.fieldName (.ofDocument document) typeName field.name } := by
  rw [applyToDocument, Document.containers_mapFields, Document.containers_mapTypeNames,
    List.map_map]
  rfl

/-- Where conventional names count, no type that has one is moved, and none gets one. -/
theorem typeName_eq_conventional_iff (ns : Namespace) {document : Document}
    (hnone : document.definitions.filterMap RootTypes.named? = []) {name : String}
    (hname : name ∈ ["Query", "Mutation", "Subscription"]) {declared : String}
    (hdeclared : declared ∈ document.declaredNames) :
    ns.typeName (.ofDocument document) declared = name ↔ declared = name := by
  constructor
  · intro e
    by_cases hq : ns.qualifiesType (.ofDocument document) declared
    · have hunder : ∀ name ∈ ["Query", "Mutation", "Subscription"], '_' ∉ name.toList := by decide
      obtain ⟨p, hp⟩ := exists_name hq
      have hmoved : ns.typeName (.ofDocument document) declared = ns.qualify declared := if_pos hq
      exact absurd ⟨declared, e.symm.trans hmoved⟩ (not_isQualified hp (hunder name hname))
    · have hstays : ns.typeName (.ofDocument document) declared = declared := if_neg hq
      exact hstays.symm.trans e
  · rintro rfl
    refine typeName_of_mem ?_
    fin_cases hname <;>
      simp [RootTypes.names, RootTypes.ofDocument, RootTypes.operations, hnone,
        RootTypes.conventional, hdeclared]

/-- The root types are those of the backend's own schema. -/
theorem operations_moved (ns : Namespace) (document : Document) :
    RootTypes.operations (ns.applyToDocument document) = RootTypes.operations document := by
  have hroots : (RootTypes.operations document).mapTypeNames (ns.typeName (.ofDocument document)) =
      RootTypes.operations document := by
    refine (RootOperations.mapTypeNames_congr (g := id) fun name hname => ?_).trans
      (RootOperations.mapTypeNames_id _)
    have hname : name ∈ (RootTypes.ofDocument document).names := hname
    exact typeName_of_mem hname
  rw [applyToDocument, RootTypes.operations_mapFields, RootTypes.operations_mapTypeNames, hroots]
  intro hnone name hname declared hdeclared
  exact ns.typeName_eq_conventional_iff hnone hname hdeclared

theorem names_applyToDocument (ns : Namespace) (document : Document) :
    (RootTypes.ofDocument (ns.applyToDocument document)).names =
      (RootTypes.ofDocument document).names := by
  simp only [RootTypes.ofDocument, RootTypes.names, operations_moved]

end Namespace

end Supergraph
