import Supergraph.Proofs.DocumentMaps
import Supergraph.Rename

/-!
# Field sets in documents

Directives on containers and on their fields select fields by texts. A `Selector` is such a
directive together with the type whose fields it selects, and `Document.selectors` lists them in the
order in which they are read.

What can be said of all field sets of a document is said of this list: why they cannot be read
(`fieldSetErrors`), and that changing type names changes the types that they select from and nothing
else (`selectors_mapTypeNames`).
-/

namespace Supergraph

open FieldRename (selectedType?)

/-! ## Texts -/

namespace FieldSet

variable {text : String} {fields : FieldSet}

theorem namesIn_of_parse (h : parse text = .ok fields) : namesIn text = fields.names := by
  unfold namesIn
  rw [h]

theorem errorIn?_of_parse (h : parse text = .ok fields) : errorIn? text = none := by
  unfold errorIn?
  rw [h]

theorem parse_of_errorIn? (h : errorIn? text = none) : ∃ fields, parse text = .ok fields := by
  unfold errorIn? at h
  split at h
  next fields hparse => exact ⟨fields, hparse⟩
  next => cases h

end FieldSet

/-! ## Texts of directives -/

/-- The text of an argument that is a field set. -/
def fieldText? : String × Value → Option String
  | ("fields", .string text) => some text
  | _ => none

/-- Applies `f` to an argument that is a field set. -/
def mapFieldText (f : String → String) : String × Value → String × Value
  | ("fields", .string text) => ("fields", .string (f text))
  | argument => argument

namespace Directive

/-- The field sets among the arguments. -/
def fieldTexts (directive : Directive) : List String := directive.arguments.filterMap fieldText?

/-- Applies `f` to the field sets. -/
def mapFieldTexts (f : String → String) (directive : Directive) : Directive :=
  { directive with arguments := directive.arguments.map (mapFieldText f) }

/-- Why the field sets cannot be read, if one of them cannot. -/
def fieldSetError? (directive : Directive) : Option Error :=
  directive.fieldTexts.findSome? FieldSet.errorIn?

/-- The type whose fields a directive on a container selects. -/
def keyType? (typeName : String) (directive : Directive) : Option String :=
  if directive.name = "key" then some typeName else none

end Directive

section Texts

variable {f g : String → String}

theorem fieldText_cases (argument : String × Value) :
    (∃ text, argument = ("fields", .string text)) ∨
      (fieldText? argument = none ∧ ∀ f, mapFieldText f argument = argument) := by
  unfold fieldText?
  split
  next text => exact .inl ⟨text, rfl⟩
  next hother =>
    refine .inr ⟨rfl, ?_⟩
    intro f
    unfold mapFieldText
    split
    next text => exact absurd rfl (hother text)
    next => rfl

theorem fieldText?_mapFieldText (argument : String × Value) :
    fieldText? (mapFieldText f argument) = (fieldText? argument).map f := by
  rcases fieldText_cases argument with ⟨text, rfl⟩ | ⟨hnone, hkept⟩
  · rfl
  · rw [hkept, hnone, Option.map_none]

theorem mapFieldText_mapFieldText (argument : String × Value) :
    mapFieldText g (mapFieldText f argument) = mapFieldText (g ∘ f) argument := by
  rcases fieldText_cases argument with ⟨text, rfl⟩ | ⟨-, hkept⟩
  · rfl
  · rw [hkept, hkept, hkept]

theorem mapFieldText_congr {argument : String × Value}
    (h : ∀ text ∈ fieldText? argument, f text = g text) :
    mapFieldText f argument = mapFieldText g argument := by
  rcases fieldText_cases argument with ⟨text, rfl⟩ | ⟨-, hkept⟩
  · have htext := h text rfl
    simp [mapFieldText, htext]
  · rw [hkept, hkept]

namespace Directive

theorem fieldTexts_mapFieldTexts (directive : Directive) :
    (directive.mapFieldTexts f).fieldTexts = directive.fieldTexts.map f := by
  simp [fieldTexts, mapFieldTexts, List.filterMap_map, List.map_filterMap,
    fieldText?_mapFieldText]

theorem mapFieldTexts_mapFieldTexts (directive : Directive) :
    (directive.mapFieldTexts f).mapFieldTexts g = directive.mapFieldTexts (g ∘ f) := by
  simp [mapFieldTexts, mapFieldText_mapFieldText]

theorem mapFieldTexts_congr {directive : Directive}
    (h : ∀ text ∈ directive.fieldTexts, f text = g text) :
    directive.mapFieldTexts f = directive.mapFieldTexts g := by
  have harguments : directive.arguments.map (mapFieldText f) =
      directive.arguments.map (mapFieldText g) := by
    refine List.map_congr_left ?_
    intro argument hargument
    refine mapFieldText_congr ?_
    intro text htext
    exact h text (List.mem_filterMap.2 ⟨argument, hargument, htext⟩)
  rw [mapFieldTexts, harguments, mapFieldTexts]

theorem mapFieldTexts_id (directive : Directive) : directive.mapFieldTexts (fun text => text) =
    directive := by
  have harguments : directive.arguments.map (mapFieldText fun text => text) =
      directive.arguments := by
    refine (List.map_congr_left ?_).trans (List.map_id _)
    intro argument _
    rcases fieldText_cases argument with ⟨text, rfl⟩ | ⟨-, hkept⟩
    · rfl
    · exact hkept _
  rw [mapFieldTexts, harguments]

end Directive

end Texts

/-! ## Selectors -/

/-- A directive with field sets, and the type whose fields they select. -/
structure Selector where
  typeName : String
  directive : Directive

namespace Selector

/-- The fields that the field sets select at their top level. -/
def fields (selector : Selector) : List Coordinate :=
  selector.directive.fieldTexts.flatMap fun text =>
    (FieldSet.namesIn text).map (⟨selector.typeName, ·⟩)

/-- Applies `f` to the type. -/
def mapTypeName (f : String → String) (selector : Selector) : Selector :=
  { selector with typeName := f selector.typeName }

end Selector

/-- The directives on a field of the type `typeName` that select fields. -/
def Field.selectors (typeName : String) (field : Field) : List Selector :=
  field.directives.filterMap fun directive =>
    (selectedType? typeName field directive).map (⟨·, directive⟩)

/-- The directives on a container and on its fields that select fields. -/
def Container.selectors (container : Container) : List Selector :=
  container.fields.flatMap (·.selectors container.name) ++
    container.directives.filterMap fun directive =>
      (directive.keyType? container.name).map (⟨·, directive⟩)

/-- The directives of a definition that select fields. Only containers have such directives. -/
def Definition.selectors (definition : Definition) : List Selector :=
  definition.container?.toList.flatMap (·.selectors)

namespace Document

/-- The directives of a document that select fields. Those of the fields of a container come before
its own. -/
def selectors (document : Document) : List Selector := document.containers.flatMap (·.selectors)

/-- Why the field sets of directives cannot be read. -/
def fieldSetErrors (document : Document) : List Error :=
  document.selectors.filterMap (·.directive.fieldSetError?)

end Document

/-! ## Selectors and type names -/

section TypeNames

variable (f : String → String)

theorem keyType?_map (typeName : String) (directive : Directive) :
    directive.keyType? (f typeName) = (directive.keyType? typeName).map f := by
  unfold Directive.keyType?
  split_ifs <;> rfl

namespace Field

theorem selectedType?_mapTypeNames (typeName : String) (field : Field) (directive : Directive) :
    selectedType? (f typeName) (field.mapTypeNames f) directive =
      (selectedType? typeName field directive).map f := by
  unfold selectedType?
  split_ifs
  · rfl
  · simp [mapTypeNames]
  · rfl

theorem selectors_mapTypeNames (typeName : String) (field : Field) :
    (field.mapTypeNames f).selectors (f typeName) =
      (field.selectors typeName).map (·.mapTypeName f) := by
  simp only [selectors, selectedType?_mapTypeNames, List.map_filterMap, Option.map_map]
  rfl

end Field

theorem Container.selectors_mapTypeNames (container : Container) :
    (container.mapTypeNames f).selectors = container.selectors.map (·.mapTypeName f) := by
  simp only [selectors, Container.mapTypeNames, List.map_append, List.flatMap_map,
    List.map_flatMap, Field.selectors_mapTypeNames, keyType?_map, List.map_filterMap,
    Option.map_map]
  rfl

namespace Document

theorem selectors_eq (document : Document) :
    document.selectors = document.definitions.flatMap (·.selectors) := by
  rw [selectors, containers, List.filterMap_eq_flatMap_toList, List.flatMap_assoc]
  rfl

theorem selectors_mapTypeNames (document : Document) :
    (document.mapTypeNames f).selectors = document.selectors.map (·.mapTypeName f) := by
  rw [selectors, containers_mapTypeNames, List.flatMap_map, selectors, List.map_flatMap]
  refine List.flatMap_congr ?_
  intro container _
  exact container.selectors_mapTypeNames f

/-- Whether field sets can be read does not depend on the types they select from. -/
theorem fieldSetErrors_mapTypeNames (document : Document) :
    (document.mapTypeNames f).fieldSetErrors = document.fieldSetErrors := by
  rw [fieldSetErrors, selectors_mapTypeNames, List.filterMap_map]
  rfl

theorem fieldSetErrors_eq_nil {document : Document} :
    document.fieldSetErrors = [] ↔ ∀ selector ∈ document.selectors,
      ∀ text ∈ selector.directive.fieldTexts, FieldSet.errorIn? text = none := by
  simp only [fieldSetErrors, List.filterMap_eq_nil_iff, Directive.fieldSetError?,
    List.findSome?_eq_none_iff]

theorem mem_typeNames_of_mem_fields {document : Document} {container : Container} {field : Field}
    (hcontainer : container ∈ document.containers) (hfield : field ∈ container.fields) :
    field.type.inner ∈ document.typeNames := by
  obtain ⟨definition, hdefinition, hdeclares⟩ := List.mem_filterMap.1 hcontainer
  refine List.mem_flatMap.2 ⟨definition, hdefinition, ?_⟩
  have hbody : ∀ interfaces, field.type.inner ∈
      (TypeBody.container container.kind interfaces container.fields).typeNames := by
    intro interfaces
    exact List.mem_append_right _ (List.mem_flatMap.2 ⟨field, hfield, List.mem_cons_self⟩)
  cases definition with
  | schema | directive => cases hdeclares
  | type description declaration | extension declaration =>
    obtain ⟨name, directives, body⟩ := declaration
    cases body with
    | container kind interfaces fields =>
      obtain rfl := Option.some.inj hdeclares
      exact List.mem_cons_of_mem _ (hbody interfaces)
    | _ => cases hdeclares

/-- The types that are selected from are named in the document. -/
theorem mem_typeNames_of_mem_selectors {document : Document} {selector : Selector}
    (h : selector ∈ document.selectors) : selector.typeName ∈ document.typeNames := by
  obtain ⟨container, hcontainer, h⟩ := List.mem_flatMap.1 h
  have hname : container.name ∈ document.typeNames :=
    mem_typeNames_of_declared (declared_of_mem_containers hcontainer)
  rcases List.mem_append.1 h with h | h
  · obtain ⟨field, hfield, h⟩ := List.mem_flatMap.1 h
    obtain ⟨directive, -, h⟩ := List.mem_filterMap.1 h
    obtain ⟨typeName, hselected, rfl⟩ := Option.map_eq_some_iff.1 h
    unfold selectedType? at hselected
    split_ifs at hselected
    · exact Option.some.inj hselected ▸ hname
    · exact Option.some.inj hselected ▸ mem_typeNames_of_mem_fields hcontainer hfield
  · obtain ⟨directive, -, h⟩ := List.mem_filterMap.1 h
    obtain ⟨typeName, hselected, rfl⟩ := Option.map_eq_some_iff.1 h
    unfold Directive.keyType? at hselected
    split_ifs at hselected
    exact Option.some.inj hselected ▸ hname

end Document

end TypeNames

end Supergraph
