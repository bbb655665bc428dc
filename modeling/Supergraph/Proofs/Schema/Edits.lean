import Supergraph.Proofs.FieldSet.Selectors

/-!
# Edits of fields

When fields get new names, a document changes in two kinds of places: where it declares fields, and
in its field sets, which select fields of some type. A `FieldEdit` says what becomes of these names
and texts, and `Document.edit` makes the edit.

Edits can be joined (`edit_edit`), only what they do to the names and texts of a document counts
(`edit_congr`), and an edit can be exchanged with a change of type names (`edit_mapTypeNames`). What
an edit leaves of the fields and the field sets of a document is said by `containers_edit` and
`selectors_edit`.
-/

namespace Supergraph

open FieldRename (selectedType?)

/-- What becomes of the name of a field of a type, and of a field set that selects fields of a
type. -/
structure FieldEdit where
  fieldName : String → String → String
  fieldSet : String → String → String

namespace FieldEdit

/-- The edit that changes nothing. -/
def keep : FieldEdit := ⟨fun _ name => name, fun _ text => text⟩

/-- One edit, and then another one. -/
def after (second first : FieldEdit) : FieldEdit where
  fieldName typeName name := second.fieldName typeName (first.fieldName typeName name)
  fieldSet typeName text := second.fieldSet typeName (first.fieldSet typeName text)

/-- An edit that speaks of types by the names that `f` gives them. -/
def through (f : String → String) (edit : FieldEdit) : FieldEdit where
  fieldName typeName := edit.fieldName (f typeName)
  fieldSet typeName := edit.fieldSet (f typeName)

/-- A directive after the edit. Only one that selects fields of a type is changed. -/
def onDirective (edit : FieldEdit) (selected : Option String) (directive : Directive) : Directive :=
  match selected with
  | some typeName => directive.mapFieldTexts (edit.fieldSet typeName)
  | none => directive

/-- The directives on a container of the type `typeName` after the edit. -/
def onTypeDirectives (edit : FieldEdit) (typeName : String) (directives : List Directive) :
    List Directive :=
  directives.map fun directive => edit.onDirective (directive.keyType? typeName) directive

/-- Whether two edits do the same to the fields and field sets of a container. -/
structure AgreeOn (container : Container) (edit other : FieldEdit) : Prop where
  fieldName : ∀ field ∈ container.fields,
    edit.fieldName container.name field.name = other.fieldName container.name field.name
  fieldSet : ∀ selector ∈ container.selectors, ∀ text ∈ selector.directive.fieldTexts,
    edit.fieldSet selector.typeName text = other.fieldSet selector.typeName text

end FieldEdit

def Field.edit (edit : FieldEdit) (typeName : String) (field : Field) : Field :=
  { field with
    name := edit.fieldName typeName field.name
    directives := field.directives.map fun directive =>
      edit.onDirective (selectedType? typeName field directive) directive }

/-- A directive that selects fields, after the edit. -/
def Selector.edit (edit : FieldEdit) (selector : Selector) : Selector :=
  { selector with directive := selector.directive.mapFieldTexts (edit.fieldSet selector.typeName) }

def Container.edit (edit : FieldEdit) (container : Container) : Container :=
  { container with
    directives := edit.onTypeDirectives container.name container.directives
    fields := container.fields.map (·.edit edit container.name) }

def TypeDeclaration.edit (edit : FieldEdit) (declaration : TypeDeclaration) : TypeDeclaration :=
  match declaration.body with
  | .container kind interfaces fields =>
    { declaration with
      directives := edit.onTypeDirectives declaration.name declaration.directives
      body := .container kind interfaces (fields.map (·.edit edit declaration.name)) }
  | _ => declaration

def Document.edit (edit : FieldEdit) (document : Document) : Document :=
  ⟨document.definitions.map (·.mapDeclaration (·.edit edit))⟩

/-! ## Directives -/

section Edits

variable {edit first second other : FieldEdit}

namespace FieldEdit

theorem fieldSet_after (second first : FieldEdit) (typeName text : String) :
    (second.after first).fieldSet typeName text =
      second.fieldSet typeName (first.fieldSet typeName text) := rfl

theorem name_onDirective (selected : Option String) (directive : Directive) :
    (edit.onDirective selected directive).name = directive.name := by
  cases selected <;> rfl

theorem keyType?_onDirective (typeName : String) (selected : Option String)
    (directive : Directive) :
    (edit.onDirective selected directive).keyType? typeName = directive.keyType? typeName := by
  rw [Directive.keyType?, name_onDirective, Directive.keyType?]

theorem onDirective_onDirective (selected : Option String) (directive : Directive) :
    second.onDirective selected (first.onDirective selected directive) =
      (second.after first).onDirective selected directive := by
  cases selected with
  | none => rfl
  | some typeName => exact directive.mapFieldTexts_mapFieldTexts

theorem onDirective_keep (selected : Option String) (directive : Directive) :
    keep.onDirective selected directive = directive := by
  cases selected with
  | none => rfl
  | some typeName => exact directive.mapFieldTexts_id

/-- Only what the edits do to field sets that select fields counts. -/
theorem onDirective_congr {selected : Option String} {directive : Directive}
    (h : ∀ typeName ∈ selected, ∀ text ∈ directive.fieldTexts,
      edit.fieldSet typeName text = other.fieldSet typeName text) :
    edit.onDirective selected directive = other.onDirective selected directive := by
  cases selected with
  | none => rfl
  | some typeName => exact Directive.mapFieldTexts_congr (h typeName rfl)

theorem onDirective_map (f : String → String) (selected : Option String) (directive : Directive) :
    edit.onDirective (selected.map f) directive =
      (edit.through f).onDirective selected directive := by
  cases selected <;> rfl

end FieldEdit

/-! ## Fields and containers -/

namespace Field

/-- What a directive selects depends on its name and on the type of its field only. -/
theorem selectedType?_edit (typeName : String) (field : Field) (selected : Option String)
    (directive : Directive) :
    selectedType? typeName (field.edit edit typeName) (edit.onDirective selected directive) =
      selectedType? typeName field directive := by
  simp only [selectedType?, FieldEdit.name_onDirective, Field.edit]

theorem edit_edit (typeName : String) (field : Field) :
    (field.edit first typeName).edit second typeName =
      field.edit (second.after first) typeName := by
  have hdirectives : (field.edit first typeName).directives.map (fun directive =>
        second.onDirective (selectedType? typeName (field.edit first typeName) directive)
          directive) =
      (field.edit (second.after first) typeName).directives := by
    simp only [Field.edit, List.map_map]
    refine List.map_congr_left ?_
    intro directive _
    rw [Function.comp_apply, ← Field.edit, selectedType?_edit,
      FieldEdit.onDirective_onDirective]
  exact congrArg (Field.mk field.description _ field.arguments field.type) hdirectives

theorem edit_keep (typeName : String) (field : Field) : field.edit .keep typeName = field := by
  simp only [Field.edit, FieldEdit.onDirective_keep, List.map_id']
  rfl

theorem edit_congr {container : Container} (h : FieldEdit.AgreeOn container edit other)
    {field : Field} (hfield : field ∈ container.fields) :
    field.edit edit container.name = field.edit other container.name := by
  have hdirectives : (field.edit edit container.name).directives =
      (field.edit other container.name).directives := by
    refine List.map_congr_left ?_
    intro directive hdirective
    refine FieldEdit.onDirective_congr ?_
    intro typeName hselected
    have hselector : ⟨typeName, directive⟩ ∈ field.selectors container.name :=
      List.mem_filterMap.2
        ⟨directive, hdirective, Option.map_eq_some_iff.2 ⟨_, hselected, rfl⟩⟩
    exact h.fieldSet _ (List.mem_append_left _ (List.mem_flatMap.2 ⟨field, hfield, hselector⟩))
  rw [Field.edit, h.fieldName field hfield]
  exact congrArg (Field.mk field.description _ field.arguments field.type) hdirectives

theorem edit_mapTypeNames (f : String → String) (typeName : String) (field : Field) :
    (field.mapTypeNames f).edit edit (f typeName) =
      (field.edit (edit.through f) typeName).mapTypeNames f := by
  simp only [Field.edit, selectedType?_mapTypeNames, FieldEdit.onDirective_map]
  rfl

theorem selectors_edit (typeName : String) (field : Field) :
    (field.edit edit typeName).selectors typeName =
      (field.selectors typeName).map (·.edit edit) := by
  simp only [selectors, Field.edit, List.filterMap_map, List.map_filterMap]
  refine List.filterMap_congr ?_
  intro directive _
  rw [Function.comp_apply, ← Field.edit, selectedType?_edit]
  cases selectedType? typeName field directive <;> rfl

end Field

namespace FieldEdit

variable {typeName : String} {directives : List Directive}

theorem onTypeDirectives_onTypeDirectives :
    second.onTypeDirectives typeName (first.onTypeDirectives typeName directives) =
      (second.after first).onTypeDirectives typeName directives := by
  simp [onTypeDirectives, keyType?_onDirective, onDirective_onDirective]

theorem onTypeDirectives_keep : keep.onTypeDirectives typeName directives = directives := by
  simp [onTypeDirectives, onDirective_keep]

theorem onTypeDirectives_congr {container : Container} (h : AgreeOn container edit other) :
    edit.onTypeDirectives container.name container.directives =
      other.onTypeDirectives container.name container.directives := by
  refine List.map_congr_left ?_
  intro directive hdirective
  refine onDirective_congr ?_
  intro typeName hselected
  have hselector : ⟨typeName, directive⟩ ∈ container.selectors :=
    List.mem_append_right _ (List.mem_filterMap.2
      ⟨directive, hdirective, Option.map_eq_some_iff.2 ⟨_, hselected, rfl⟩⟩)
  exact h.fieldSet _ hselector

theorem onTypeDirectives_map (f : String → String) :
    edit.onTypeDirectives (f typeName) directives =
      (edit.through f).onTypeDirectives typeName directives := by
  simp [onTypeDirectives, keyType?_map, onDirective_map]

theorem filterMap_onTypeDirectives :
    ((edit.onTypeDirectives typeName directives).filterMap fun directive =>
        (directive.keyType? typeName).map (Selector.mk · directive)) =
      (directives.filterMap fun directive =>
        (directive.keyType? typeName).map (Selector.mk · directive)).map (·.edit edit) := by
  simp only [onTypeDirectives, List.filterMap_map, List.map_filterMap]
  refine List.filterMap_congr ?_
  intro directive _
  rw [Function.comp_apply, keyType?_onDirective]
  cases directive.keyType? typeName <;> rfl

end FieldEdit

theorem Container.selectors_edit (container : Container) :
    (container.edit edit).selectors = container.selectors.map (·.edit edit) := by
  simp only [selectors, Container.edit, FieldEdit.filterMap_onTypeDirectives, List.map_append,
    List.flatMap_map, List.map_flatMap, Field.selectors_edit]

namespace TypeDeclaration

theorem edit_edit (declaration : TypeDeclaration) :
    (declaration.edit first).edit second = declaration.edit (second.after first) := by
  obtain ⟨name, directives, body⟩ := declaration
  cases body <;>
    simp [TypeDeclaration.edit, Field.edit_edit, FieldEdit.onTypeDirectives_onTypeDirectives]

theorem edit_keep (declaration : TypeDeclaration) : declaration.edit .keep = declaration := by
  obtain ⟨name, directives, body⟩ := declaration
  cases body <;> simp [TypeDeclaration.edit, Field.edit_keep, FieldEdit.onTypeDirectives_keep]

theorem edit_mapTypeNames (f : String → String) (declaration : TypeDeclaration) :
    (declaration.mapTypeNames f).edit edit =
      (declaration.edit (edit.through f)).mapTypeNames f := by
  obtain ⟨name, directives, body⟩ := declaration
  cases body <;>
    simp [TypeDeclaration.edit, TypeDeclaration.mapTypeNames, TypeBody.mapTypeNames,
      Field.edit_mapTypeNames, FieldEdit.onTypeDirectives_map]

end TypeDeclaration

namespace Definition

theorem edit_congr {definition : Definition}
    (h : ∀ container ∈ definition.container?, FieldEdit.AgreeOn container edit other) :
    definition.mapDeclaration (·.edit edit) = definition.mapDeclaration (·.edit other) := by
  have hcontainer : ∀ container : Container, FieldEdit.AgreeOn container edit other →
      ∀ interfaces, (TypeDeclaration.mk container.name container.directives
          (.container container.kind interfaces container.fields)).edit edit =
        TypeDeclaration.edit other ⟨container.name, container.directives,
          .container container.kind interfaces container.fields⟩ := by
    intro container hagree interfaces
    have hfields : container.fields.map (·.edit edit container.name) =
        container.fields.map (·.edit other container.name) :=
      List.map_congr_left fun field hfield => Field.edit_congr hagree hfield
    simp only [TypeDeclaration.edit, FieldEdit.onTypeDirectives_congr hagree, hfields]
  cases definition with
  | schema | directive => rfl
  | type description declaration =>
    obtain ⟨name, directives, body⟩ := declaration
    cases body with
    | container kind interfaces fields =>
      exact congrArg (type description) (hcontainer _ (h _ rfl) interfaces)
    | _ => rfl
  | extension declaration =>
    obtain ⟨name, directives, body⟩ := declaration
    cases body with
    | container kind interfaces fields =>
      exact congrArg extension (hcontainer _ (h _ rfl) interfaces)
    | _ => rfl

theorem container?_edit (definition : Definition) :
    (definition.mapDeclaration (·.edit edit)).container? =
      definition.container?.map (·.edit edit) := by
  cases definition with
  | schema | directive => rfl
  | type description declaration | extension declaration =>
    obtain ⟨name, directives, body⟩ := declaration
    cases body <;> rfl

end Definition

/-! ## Documents -/

namespace Document

/-- Two edits, one after the other, are one edit. -/
theorem edit_edit (document : Document) :
    (document.edit first).edit second = document.edit (second.after first) := by
  simp [Document.edit, Definition.mapDeclaration_mapDeclaration, TypeDeclaration.edit_edit]

theorem edit_keep (document : Document) : document.edit .keep = document := by
  have hdefinitions : document.definitions.map (·.mapDeclaration (·.edit .keep)) =
      document.definitions := by
    refine (List.map_congr_left ?_).trans (List.map_id _)
    intro definition _
    cases definition <;> simp [Definition.mapDeclaration, TypeDeclaration.edit_keep]
  rw [Document.edit, hdefinitions]

/-- Edits that do the same in every container make the same document. -/
theorem edit_congr {document : Document}
    (h : ∀ container ∈ document.containers, FieldEdit.AgreeOn container edit other) :
    document.edit edit = document.edit other := by
  have hdefinitions : document.definitions.map (·.mapDeclaration (·.edit edit)) =
      document.definitions.map (·.mapDeclaration (·.edit other)) := by
    refine List.map_congr_left ?_
    intro definition hdefinition
    refine Definition.edit_congr ?_
    intro container hcontainer
    exact h container (List.mem_filterMap.2 ⟨definition, hdefinition, hcontainer⟩)
  rw [Document.edit, hdefinitions, Document.edit]

/-- Edits can be exchanged with changes of type names, if they speak of types by their new names. -/
theorem edit_mapTypeNames (f : String → String) (document : Document) :
    (document.mapTypeNames f).edit edit = (document.edit (edit.through f)).mapTypeNames f := by
  simp only [Document.edit, mapTypeNames, List.map_map]
  refine congrArg mk (List.map_congr_left ?_)
  intro definition _
  cases definition with
  | schema | directive => rfl
  | type description declaration =>
    exact congrArg (Definition.type description) (declaration.edit_mapTypeNames f)
  | extension declaration => exact congrArg Definition.extension (declaration.edit_mapTypeNames f)

theorem containers_edit (document : Document) :
    (document.edit edit).containers = document.containers.map (·.edit edit) := by
  simp only [containers, Document.edit, List.filterMap_map, List.map_filterMap]
  refine List.filterMap_congr ?_
  intro definition _
  exact definition.container?_edit

theorem selectors_edit (document : Document) :
    (document.edit edit).selectors = document.selectors.map (·.edit edit) := by
  rw [selectors, containers_edit, List.flatMap_map, selectors, List.map_flatMap]
  refine List.flatMap_congr ?_
  intro container _
  exact container.selectors_edit

end Document

end Edits

end Supergraph
