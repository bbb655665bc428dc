import Mathlib.Data.List.Basic
import Supergraph.Proofs.Occurrence
import Supergraph.Schema.Fields
import Supergraph.Schema.TypeNames

/-!
# Documents with changed names

`Document.mapTypeNames` and `Document.mapFields` change the names in a document. This file follows
such a change into what is derived from a document: its containers and the occurrences of fields in
them, its declared names and its root types. Both kinds of changes compose, and one that keeps every
name of a document keeps the document.
-/

namespace Supergraph

/-! ## Type names -/

section TypeNames

variable {f g : String → String}

theorem TypeRef.mapInner_congr {type : TypeRef} (h : f type.inner = g type.inner) :
    type.mapInner f = type.mapInner g := by
  induction type with
  | named name => exact congrArg named h
  | list item ih => exact congrArg list (ih h)
  | nonNull type ih => exact congrArg nonNull (ih h)

@[simp] theorem InputField.mapTypeNames_mapTypeNames (field : InputField) :
    (field.mapTypeNames f).mapTypeNames g = field.mapTypeNames (g ∘ f) := by
  simp [mapTypeNames]

@[simp] theorem InputField.mapTypeNames_id (field : InputField) :
    field.mapTypeNames id = field := by
  simp [mapTypeNames]

theorem InputField.map_mapTypeNames_congr {fields : List InputField}
    (h : ∀ name ∈ fields.map (·.type.inner), f name = g name) :
    fields.map (·.mapTypeNames f) = fields.map (·.mapTypeNames g) :=
  List.map_congr_left fun field hfield => by
    rw [mapTypeNames, TypeRef.mapInner_congr (h _ (List.mem_map_of_mem hfield)), ← mapTypeNames]

@[simp] theorem Field.mapTypeNames_mapTypeNames (field : Field) :
    (field.mapTypeNames f).mapTypeNames g = field.mapTypeNames (g ∘ f) := by
  simp [mapTypeNames]

@[simp] theorem Field.mapTypeNames_id (field : Field) : field.mapTypeNames id = field := by
  simp [mapTypeNames]

theorem Field.mapTypeNames_congr {field : Field} (h : ∀ name ∈ field.typeNames, f name = g name) :
    field.mapTypeNames f = field.mapTypeNames g := by
  have htype := TypeRef.mapInner_congr (h _ List.mem_cons_self)
  have harguments := InputField.map_mapTypeNames_congr fun name hname =>
    h name (List.mem_cons_of_mem _ hname)
  rw [mapTypeNames, htype, harguments, ← mapTypeNames]

@[simp] theorem TypeBody.mapTypeNames_mapTypeNames (body : TypeBody) :
    (body.mapTypeNames f).mapTypeNames g = body.mapTypeNames (g ∘ f) := by
  cases body <;> simp [mapTypeNames]

@[simp] theorem TypeBody.mapTypeNames_id (body : TypeBody) : body.mapTypeNames id = body := by
  cases body <;> simp [mapTypeNames]

theorem TypeBody.mapTypeNames_congr {body : TypeBody}
    (h : ∀ name ∈ body.typeNames, f name = g name) :
    body.mapTypeNames f = body.mapTypeNames g := by
  cases body with
  | scalar | enum => rfl
  | container kind interfaces fields =>
    have hinterfaces := List.map_congr_left fun name hname =>
      h name (List.mem_append_left _ hname)
    have hfields : fields.map (·.mapTypeNames f) = fields.map (·.mapTypeNames g) :=
      List.map_congr_left fun field hfield => Field.mapTypeNames_congr fun name hname =>
        h name (List.mem_append_right _ (List.mem_flatMap.2 ⟨field, hfield, hname⟩))
    rw [mapTypeNames, hinterfaces, hfields, ← mapTypeNames]
  | union members => exact congrArg union (List.map_congr_left h)
  | input fields => exact congrArg input (InputField.map_mapTypeNames_congr h)

@[simp] theorem TypeDeclaration.mapTypeNames_mapTypeNames (declaration : TypeDeclaration) :
    (declaration.mapTypeNames f).mapTypeNames g = declaration.mapTypeNames (g ∘ f) := by
  simp [mapTypeNames]

@[simp] theorem TypeDeclaration.mapTypeNames_id (declaration : TypeDeclaration) :
    declaration.mapTypeNames id = declaration := by
  simp [mapTypeNames]

theorem TypeDeclaration.mapTypeNames_congr {declaration : TypeDeclaration}
    (h : ∀ name ∈ declaration.name :: declaration.body.typeNames, f name = g name) :
    declaration.mapTypeNames f = declaration.mapTypeNames g := by
  have hbody := TypeBody.mapTypeNames_congr fun name hname => h name (List.mem_cons_of_mem _ hname)
  rw [mapTypeNames, h _ List.mem_cons_self, hbody, ← mapTypeNames]

@[simp] theorem RootOperations.mapTypeNames_mapTypeNames (roots : RootOperations) :
    (roots.mapTypeNames f).mapTypeNames g = roots.mapTypeNames (g ∘ f) := by
  simp [mapTypeNames]

@[simp] theorem RootOperations.mapTypeNames_id (roots : RootOperations) :
    roots.mapTypeNames id = roots := by
  simp [mapTypeNames]

theorem RootOperations.mapTypeNames_congr {roots : RootOperations}
    (h : ∀ name ∈ roots.typeNames, f name = g name) :
    roots.mapTypeNames f = roots.mapTypeNames g := by
  obtain ⟨q, m, s⟩ := roots
  cases q <;> cases m <;> cases s <;> simp_all [mapTypeNames, typeNames]

@[simp] theorem Definition.mapTypeNames_mapTypeNames (definition : Definition) :
    (definition.mapTypeNames f).mapTypeNames g = definition.mapTypeNames (g ∘ f) := by
  cases definition <;> simp [mapTypeNames]

@[simp] theorem Definition.mapTypeNames_id (definition : Definition) :
    definition.mapTypeNames id = definition := by
  cases definition <;> simp [mapTypeNames]

theorem Definition.mapTypeNames_congr {definition : Definition}
    (h : ∀ name ∈ definition.typeNames, f name = g name) :
    definition.mapTypeNames f = definition.mapTypeNames g := by
  cases definition with
  | schema directives roots => exact congrArg _ (RootOperations.mapTypeNames_congr h)
  | type description declaration => exact congrArg _ (TypeDeclaration.mapTypeNames_congr h)
  | extension declaration => exact congrArg _ (TypeDeclaration.mapTypeNames_congr h)
  | directive d =>
    have harguments := InputField.map_mapTypeNames_congr h
    rw [mapTypeNames, harguments, ← mapTypeNames]

namespace Document

theorem mapTypeNames_mapTypeNames (document : Document) :
    (document.mapTypeNames f).mapTypeNames g = document.mapTypeNames (g ∘ f) := by
  simp [mapTypeNames]

/-- Only the function's values on the names of the document count. -/
theorem mapTypeNames_congr {document : Document}
    (h : ∀ name ∈ document.typeNames, f name = g name) :
    document.mapTypeNames f = document.mapTypeNames g :=
  congrArg mk (List.map_congr_left fun definition hd => Definition.mapTypeNames_congr fun name hn =>
    h name (List.mem_flatMap.2 ⟨definition, hd, hn⟩))

theorem mapTypeNames_id (document : Document) : document.mapTypeNames id = document := by
  simp [mapTypeNames]

/-- A function that undoes another one on the names of a document undoes its change. -/
theorem mapTypeNames_cancel {document : Document}
    (h : ∀ name ∈ document.typeNames, g (f name) = name) :
    (document.mapTypeNames f).mapTypeNames g = document := by
  rw [mapTypeNames_mapTypeNames]
  exact (mapTypeNames_congr (g := id) h).trans (mapTypeNames_id document)

end Document

/-! ### The names in a changed document -/

theorem Field.typeNames_mapTypeNames (field : Field) :
    (field.mapTypeNames f).typeNames = field.typeNames.map f := by
  simp [typeNames, mapTypeNames, InputField.mapTypeNames]

theorem TypeBody.typeNames_mapTypeNames (body : TypeBody) :
    (body.mapTypeNames f).typeNames = body.typeNames.map f := by
  cases body with
  | container kind interfaces fields =>
    simp [typeNames, mapTypeNames, List.flatMap_map, List.map_flatMap, Field.typeNames_mapTypeNames]
  | _ => simp [typeNames, mapTypeNames, InputField.mapTypeNames]

theorem Definition.typeNames_mapTypeNames (definition : Definition) :
    (definition.mapTypeNames f).typeNames = definition.typeNames.map f := by
  cases definition with
  | schema directives roots =>
    simp [typeNames, mapTypeNames, RootOperations.typeNames, RootOperations.mapTypeNames,
      Option.toList_map]
  | type | extension =>
    simp [typeNames, mapTypeNames, TypeDeclaration.mapTypeNames, TypeBody.typeNames_mapTypeNames]
  | directive => simp [typeNames, mapTypeNames, InputField.mapTypeNames]

/-- The names in the changed document are the changed names, place by place. -/
theorem Document.typeNames_mapTypeNames (document : Document) :
    (document.mapTypeNames f).typeNames = document.typeNames.map f := by
  simp [typeNames, mapTypeNames, List.flatMap_map, List.map_flatMap,
    Definition.typeNames_mapTypeNames]

end TypeNames

/-! ## Fields -/

section Fields

variable {f g : String → Field → Field}

def Container.mapFields (f : String → Field → Field) (container : Container) : Container :=
  { container with fields := container.fields.map (f container.name) }

/-- The occurrence in a document whose fields are changed. -/
def Occurrence.mapFields (f : String → Field → Field) (o : Occurrence) : Occurrence :=
  ⟨o.container.mapFields f, f o.container.name o.field⟩

theorem Definition.container?_mapFields (definition : Definition) :
    (definition.mapDeclaration (·.mapFields f)).container? =
      definition.container?.map (·.mapFields f) := by
  cases definition with
  | schema | directive => rfl
  | type description declaration | extension declaration =>
    obtain ⟨name, directives, body⟩ := declaration
    cases body <;> rfl

theorem Definition.declaration?_mapDeclaration (change : TypeDeclaration → TypeDeclaration)
    (definition : Definition) :
    (definition.mapDeclaration change).declaration? = definition.declaration?.map change := by
  cases definition <;> rfl

theorem Definition.mapDeclaration_mapDeclaration (first second : TypeDeclaration → TypeDeclaration)
    (definition : Definition) :
    (definition.mapDeclaration first).mapDeclaration second =
      definition.mapDeclaration fun declaration => second (first declaration) := by
  cases definition <;> rfl

theorem TypeDeclaration.name_mapFields (declaration : TypeDeclaration) :
    (declaration.mapFields f).name = declaration.name := by
  unfold mapFields
  split <;> rfl

theorem TypeDeclaration.mapFields_mapFields (declaration : TypeDeclaration) :
    (declaration.mapFields f).mapFields g =
      declaration.mapFields fun typeName field => g typeName (f typeName field) := by
  obtain ⟨name, directives, body⟩ := declaration
  cases body <;> simp [mapFields, Function.comp_def]

theorem TypeDeclaration.mapFields_eq_self {declaration : TypeDeclaration}
    (h : ∀ kind interfaces fields, declaration.body = .container kind interfaces fields →
      ∀ field ∈ fields, f declaration.name field = field) :
    declaration.mapFields f = declaration := by
  obtain ⟨name, directives, body⟩ := declaration
  cases body with
  | container kind interfaces fields =>
    have hfields : fields.map (f name) = fields :=
      (List.map_congr_left (g := id) (h kind interfaces fields rfl)).trans (List.map_id fields)
    simp only [mapFields, hfields]
  | _ => rfl

theorem Definition.mapFields_eq_self {definition : Definition}
    (h : ∀ container, definition.container? = some container → ∀ field ∈ container.fields,
      f container.name field = field) :
    definition.mapDeclaration (·.mapFields f) = definition := by
  cases definition with
  | schema | directive => rfl
  | type description declaration =>
    obtain ⟨name, directives, body⟩ := declaration
    refine congrArg (type description) (TypeDeclaration.mapFields_eq_self ?_)
    rintro kind interfaces fields rfl
    exact h ⟨false, kind, name, directives, fields⟩ rfl
  | extension declaration =>
    obtain ⟨name, directives, body⟩ := declaration
    refine congrArg extension (TypeDeclaration.mapFields_eq_self ?_)
    rintro kind interfaces fields rfl
    exact h ⟨true, kind, name, directives, fields⟩ rfl

namespace Document

theorem containers_mapFields (document : Document) :
    (document.mapFields f).containers = document.containers.map (·.mapFields f) := by
  simp only [containers, mapFields, List.filterMap_map, List.map_filterMap]
  exact List.filterMap_congr fun definition _ => definition.container?_mapFields

theorem occurrences_mapFields (f : String → Field → Field) (document : Document) :
    (document.mapFields f).occurrences = document.occurrences.map (·.mapFields f) := by
  rw [occurrences, containers_mapFields, List.flatMap_map, occurrences, List.map_flatMap]
  refine List.flatMap_congr fun container _ => ?_
  rw [List.map_map, Container.mapFields, List.map_map]
  rfl

theorem keyTexts_mapFields (f : String → Field → Field) (document : Document) :
    (document.mapFields f).keyTexts = document.keyTexts := by
  rw [keyTexts, containers_mapFields, List.flatMap_map]
  rfl

theorem declaredNames_mapFields (document : Document) :
    (document.mapFields f).declaredNames = document.declaredNames := by
  simp only [declaredNames, declarations, mapFields, List.filterMap_map, List.map_filterMap]
  refine List.filterMap_congr fun definition _ => ?_
  rw [Function.comp_apply, Definition.declaration?_mapDeclaration, Option.map_map]
  exact congrArg (Option.map · _) (funext TypeDeclaration.name_mapFields)

theorem mapFields_mapFields (document : Document) :
    (document.mapFields f).mapFields g =
      document.mapFields fun typeName field => g typeName (f typeName field) := by
  simp only [mapFields, List.map_map]
  refine congrArg mk (List.map_congr_left fun definition _ => ?_)
  rw [Function.comp_apply, Definition.mapDeclaration_mapDeclaration,
    funext TypeDeclaration.mapFields_mapFields]

/-- A change that keeps every field of a document keeps the document. -/
theorem mapFields_eq_self {document : Document}
    (h : ∀ container ∈ document.containers, ∀ field ∈ container.fields,
      f container.name field = field) :
    document.mapFields f = document := by
  have hdefinitions : document.definitions.map (·.mapDeclaration (·.mapFields f)) =
      document.definitions :=
    (List.map_congr_left (g := id) fun definition hd => Definition.mapFields_eq_self
      fun container hc => h container (List.mem_filterMap.2 ⟨definition, hd, hc⟩)).trans
      (List.map_id document.definitions)
  rw [mapFields, hdefinitions]

end Document

theorem Definition.typeNames_mapFields
    (h : ∀ typeName field, (f typeName field).typeNames = field.typeNames)
    (definition : Definition) :
    (definition.mapDeclaration (·.mapFields f)).typeNames = definition.typeNames := by
  cases definition with
  | schema | directive => rfl
  | type description declaration | extension declaration =>
    obtain ⟨name, directives, body⟩ := declaration
    cases body with
    | container kind interfaces fields =>
      simp [mapDeclaration, TypeDeclaration.mapFields, typeNames, TypeBody.typeNames,
        List.flatMap_map, h]
    | _ => rfl

/-- A change of fields that keeps their types keeps the type names of the document. -/
theorem Document.typeNames_mapFields
    (h : ∀ typeName field, (f typeName field).typeNames = field.typeNames) (document : Document) :
    (document.mapFields f).typeNames = document.typeNames := by
  simp [typeNames, mapFields, List.flatMap_map, Definition.typeNames_mapFields h]

end Fields

/-! ## Type names of containers -/

section TypeNames

variable {f : String → String}

def Container.mapTypeNames (f : String → String) (container : Container) : Container :=
  { container with
    name := f container.name
    fields := container.fields.map (·.mapTypeNames f) }

theorem Definition.container?_mapTypeNames (definition : Definition) :
    (definition.mapTypeNames f).container? = definition.container?.map (·.mapTypeNames f) := by
  cases definition with
  | schema | directive => rfl
  | type description declaration | extension declaration =>
    obtain ⟨name, directives, body⟩ := declaration
    cases body <;> rfl

theorem Definition.declaration?_mapTypeNames (definition : Definition) :
    (definition.mapTypeNames f).declaration? = definition.declaration?.map (·.mapTypeNames f) := by
  cases definition <;> rfl

namespace Document

theorem containers_mapTypeNames (document : Document) :
    (document.mapTypeNames f).containers = document.containers.map (·.mapTypeNames f) := by
  simp only [containers, mapTypeNames, List.filterMap_map, List.map_filterMap]
  exact List.filterMap_congr fun definition _ => definition.container?_mapTypeNames

theorem declaredNames_mapTypeNames (document : Document) :
    (document.mapTypeNames f).declaredNames = document.declaredNames.map f := by
  simp only [declaredNames, declarations, mapTypeNames, List.filterMap_map, List.map_filterMap]
  refine List.filterMap_congr fun definition _ => ?_
  rw [Function.comp_apply, Definition.declaration?_mapTypeNames, Option.map_map, Option.map_map]
  rfl

theorem keyTexts_mapTypeNames (document : Document) :
    (document.mapTypeNames f).keyTexts = document.keyTexts := by
  rw [keyTexts, containers_mapTypeNames, List.flatMap_map]
  rfl

theorem occurrences_mapTypeNames (document : Document) :
    (document.mapTypeNames f).occurrences =
      document.occurrences.map fun o => ⟨o.container.mapTypeNames f, o.field.mapTypeNames f⟩ := by
  rw [occurrences, containers_mapTypeNames, List.flatMap_map, occurrences, List.map_flatMap]
  refine List.flatMap_congr fun container _ => ?_
  rw [List.map_map, Container.mapTypeNames, List.map_map]
  rfl

theorem mem_typeNames_of_declared {document : Document} {name : String}
    (h : name ∈ document.declaredNames) : name ∈ document.typeNames := by
  obtain ⟨declaration, hdeclaration, rfl⟩ := List.mem_map.1 h
  obtain ⟨definition, hdefinition, hdeclares⟩ := List.mem_filterMap.1 hdeclaration
  refine List.mem_flatMap.2 ⟨definition, hdefinition, ?_⟩
  cases definition with
  | schema | directive => cases hdeclares
  | type | extension =>
    obtain rfl := Option.some.inj hdeclares
    exact List.mem_cons_self

theorem declared_of_mem_containers {document : Document} {container : Container}
    (h : container ∈ document.containers) : container.name ∈ document.declaredNames := by
  obtain ⟨definition, hdefinition, hcontainer⟩ := List.mem_filterMap.1 h
  unfold Definition.container? at hcontainer
  split at hcontainer
  next name directives kind interfaces fields hdeclaration =>
    obtain rfl := Option.some.inj hcontainer
    exact List.mem_map.2 ⟨_, List.mem_filterMap.2 ⟨definition, hdefinition, hdeclaration⟩, rfl⟩
  · cases hcontainer

end Document

theorem Field.isExternal_mapTypeNames (f : String → String) (field : Field) :
    (field.mapTypeNames f).isExternal = field.isExternal := by
  simp [Field.isExternal, Field.mapTypeNames, List.any_map, Function.comp_def,
    InputField.mapTypeNames]

end TypeNames

/-! ## Root types -/

namespace RootTypes

variable {f : String → String}

theorem named?_mapTypeNames (definition : Definition) :
    named? (definition.mapTypeNames f) = (named? definition).map (·.mapTypeNames f) := by
  cases definition <;> rfl

theorem named?_mapDeclaration (change : TypeDeclaration → TypeDeclaration)
    (definition : Definition) : named? (definition.mapDeclaration change) = named? definition := by
  cases definition <;> rfl

theorem filterMap_named?_mapFields (f : String → Field → Field) (document : Document) :
    (document.mapFields f).definitions.filterMap named? =
      document.definitions.filterMap named? := by
  simp only [Document.mapFields, List.filterMap_map]
  exact List.filterMap_congr fun definition _ => named?_mapDeclaration _ definition

theorem operations_mapFields (f : String → Field → Field) (document : Document) :
    operations (document.mapFields f) = operations document := by
  have hnamed := filterMap_named?_mapFields f document
  have hdeclared := Document.declaredNames_mapFields (f := f) document
  simp only [operations, conventional, hnamed, hdeclared]

theorem ofDocument_mapFields (f : String → Field → Field) (document : Document) :
    ofDocument (document.mapFields f) = ofDocument document := by
  simp only [ofDocument, operations_mapFields, Document.declaredNames_mapFields]

theorem filterMap_named?_mapTypeNames (document : Document) :
    (document.mapTypeNames f).definitions.filterMap named? =
      (document.definitions.filterMap named?).map (·.mapTypeNames f) := by
  simp only [Document.mapTypeNames, List.filterMap_map, List.map_filterMap]
  exact List.filterMap_congr fun definition _ => named?_mapTypeNames definition

/-- Root types are renamed like other types, provided that where conventional names count `f`
neither renames the types that have one nor gives one to others. -/
theorem operations_mapTypeNames {document : Document}
    (h : document.definitions.filterMap named? = [] →
      ∀ name ∈ ["Query", "Mutation", "Subscription"], ∀ declared ∈ document.declaredNames,
        f declared = name ↔ declared = name) :
    operations (document.mapTypeNames f) = (operations document).mapTypeNames f := by
  unfold operations
  rw [filterMap_named?_mapTypeNames, List.getLast?_map]
  cases hlast : (document.definitions.filterMap named?).getLast? with
  | some roots => rfl
  | none =>
    have hconventional : ∀ name ∈ ["Query", "Mutation", "Subscription"],
        conventional (document.mapTypeNames f) name = (conventional document name).map f := by
      intro name hname
      have hname := h (List.getLast?_eq_none_iff.1 hlast) name hname
      have hdeclared : name ∈ document.declaredNames.map f ↔ name ∈ document.declaredNames := by
        simp only [List.mem_map]
        exact ⟨fun ⟨d, hd, e⟩ => (hname d hd).1 e ▸ hd, fun hd => ⟨name, hd, (hname _ hd).2 rfl⟩⟩
      unfold conventional
      rw [Document.declaredNames_mapTypeNames]
      by_cases hd : name ∈ document.declaredNames
      · simp [hd, hdeclared.2 hd, (hname name hd).2 rfl]
      · simp [hd, mt hdeclared.1 hd]
    simp only [Option.map_none, RootOperations.mapTypeNames]
    rw [hconventional _ (by simp), hconventional _ (by simp), hconventional _ (by simp)]

theorem mem_typeNames_of_mem_names {document : Document} {name : String}
    (h : name ∈ (RootTypes.ofDocument document).names) : name ∈ document.typeNames := by
  have hroots : name ∈ (operations document).typeNames := h
  unfold operations at hroots
  split at hroots
  next roots hlast =>
    obtain ⟨definition, hdefinition, hnamed⟩ :=
      List.mem_filterMap.1 (List.mem_of_getLast? hlast)
    refine List.mem_flatMap.2 ⟨definition, hdefinition, ?_⟩
    cases definition with
    | schema directives roots' =>
      obtain rfl := Option.some.inj hnamed
      exact hroots
    | type | extension | directive => cases hnamed
  · have hconventional : ∀ conventionalName, name ∈ conventional document conventionalName →
        name ∈ document.declaredNames := by
      intro conventionalName hname
      unfold conventional at hname
      split_ifs at hname with hdeclared
      · obtain rfl := Option.some.inj hname
        exact List.contains_iff_mem.1 hdeclared
      · cases hname
    refine Document.mem_typeNames_of_declared ?_
    simp only [RootOperations.typeNames, List.mem_append, Option.mem_toList] at hroots
    rcases hroots with (h | h) | h <;> exact hconventional _ h

end RootTypes

end Supergraph
