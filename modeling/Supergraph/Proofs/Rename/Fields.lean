import Supergraph.Proofs.Renaming
import Supergraph.Proofs.Results

/-!
# Documents with renamed fields

Renaming the fields of a document rewrites field sets too, and fails if one of them cannot be read.
This file says what a successful renaming does to the occurrences of fields: each stays in its place
with its new name (`forall₂_occurrences`), with the arguments and the type it had, and keeps what
marks it as external.
-/

namespace Supergraph

namespace FieldRename

variable {renames : List FieldRename}

/-- What the renames make of the names of types and fields. -/
def newNames (renames : List FieldRename) : Renaming where
  typeName := id
  fieldName := apply renames

/-- The document that a schema text stands for after the renames. Without renames it is kept, even
if one of its field sets cannot be read. -/
def applyUnlessEmpty (renames : List FieldRename) (document : Document) : Except Error Document :=
  if renames.isEmpty then .ok document else applyToDocument renames document

theorem applyUnlessEmpty_cases {document renamed : Document}
    (h : applyUnlessEmpty renames document = .ok renamed) :
    (renames = [] ∧ renamed = document) ∨ applyToDocument renames document = .ok renamed := by
  unfold applyUnlessEmpty at h
  split_ifs at h with hempty
  · exact .inl ⟨List.isEmpty_iff.1 hempty, (Except.ok.inj h).symm⟩
  · exact .inr h

theorem applyToSchema_of_applyUnlessEmpty {schema : String} {document renamed : Document}
    (hread : parseSchema schema = .ok document)
    (h : applyUnlessEmpty renames document = .ok renamed) :
    applyToSchema renames schema = .ok (if renames.isEmpty then schema else renamed.print) := by
  unfold applyUnlessEmpty at h
  unfold applyToSchema
  split_ifs at h ⊢ with hempty
  · rfl
  · rw [hread, ok_bind, h]
    rfl

/-- `renamed` is the container `container` after the renames. -/
structure RenamedContainer (renames : List FieldRename) (container renamed : Container) : Prop where
  isExtension : renamed.isExtension = container.isExtension
  name : renamed.name = container.name
  directives : List.Forall₂
    (fun directive renamed => applyToTypeDirective renames container.name directive = .ok renamed)
    container.directives renamed.directives
  fields : List.Forall₂
    (fun field renamed => applyToField renames container.name field = .ok renamed)
    container.fields renamed.fields

/-- `renamed` is the occurrence `o` after the renames. -/
structure Renamed (renames : List FieldRename) (o renamed : Occurrence) : Prop where
  container : RenamedContainer renames o.container renamed.container
  field : applyToField renames o.container.name o.field = .ok renamed.field

/-! ## Directives -/

theorem name_of_applyToFieldDirective {typeName : String} {field : Field}
    {directive renamed : Directive}
    (h : applyToFieldDirective renames typeName field directive = .ok renamed) :
    renamed.name = directive.name := by
  unfold applyToFieldDirective at h
  split at h
  · obtain ⟨arguments, -, h⟩ := bind_eq_ok.1 h
    exact (Except.ok.inj h) ▸ rfl
  · exact (Except.ok.inj h) ▸ rfl

theorem name_of_applyToTypeDirective {typeName : String} {directive renamed : Directive}
    (h : applyToTypeDirective renames typeName directive = .ok renamed) :
    renamed.name = directive.name := by
  unfold applyToTypeDirective at h
  split_ifs at h
  · obtain ⟨arguments, -, h⟩ := bind_eq_ok.1 h
    exact (Except.ok.inj h) ▸ rfl
  · exact (Except.ok.inj h) ▸ rfl

theorem carries_congr {directives renamed : List Directive}
    (h : List.Forall₂ (fun d r => r.name = d.name) directives renamed) (name : String) :
    Container.carries renamed name = Container.carries directives name := by
  unfold Container.carries
  induction h with
  | nil => rfl
  | cons hname _ ih => rw [List.any_cons, List.any_cons, hname, ih]

theorem RenamedContainer.carries {container renamed : Container}
    (h : RenamedContainer renames container renamed) (name : String) :
    Container.carries renamed.directives name = Container.carries container.directives name :=
  carries_congr (h.directives.imp fun _ _ => name_of_applyToTypeDirective) name

/-! ## Fields and containers -/

theorem applyToField_eq_ok {typeName : String} {field renamed : Field}
    (h : applyToField renames typeName field = .ok renamed) :
    ∃ directives, List.Forall₂ (fun directive renamed =>
        applyToFieldDirective renames typeName field directive = .ok renamed)
          field.directives directives ∧
      renamed = { field with
        name := apply renames typeName field.name
        directives := directives } := by
  obtain ⟨directives, hdirectives, h⟩ := bind_eq_ok.1 h
  exact ⟨directives, allOrLast_eq_ok.1 hdirectives, (Except.ok.inj h).symm⟩

theorem applyToDeclaration_eq_ok {name : String} {directives : List Directive}
    {kind : ContainerKind} {interfaces : List String} {fields : List Field}
    {renamed : TypeDeclaration}
    (h : applyToDeclaration renames ⟨name, directives, .container kind interfaces fields⟩ =
      .ok renamed) :
    ∃ directives' fields', renamed = ⟨name, directives', .container kind interfaces fields'⟩ ∧
      List.Forall₂ (fun directive renamed =>
        applyToTypeDirective renames name directive = .ok renamed) directives directives' ∧
      List.Forall₂ (fun field renamed => applyToField renames name field = .ok renamed)
        fields fields' := by
  unfold applyToDeclaration at h
  split at h
  next kind' interfaces' fields'' hbody =>
    obtain ⟨rfl, rfl, rfl⟩ := TypeBody.container.inj hbody
    cases hfields : allOrLast (fields.map (applyToField renames name)) with
    | error error => cases hd : allOrLast (directives.map (applyToTypeDirective renames name)) <;>
        simp [hfields, hd] at h
    | ok fields' => cases hd : allOrLast (directives.map (applyToTypeDirective renames name)) with
      | error error => simp [hd] at h
      | ok directives' =>
        simp only [hfields, hd] at h
        exact ⟨directives', fields', (Except.ok.inj h).symm, allOrLast_eq_ok.1 hd,
          allOrLast_eq_ok.1 hfields⟩
  next hbody => exact absurd rfl (hbody kind interfaces fields)

/-- Definitions of other kinds are kept. -/
theorem applyToDefinition_eq_ok {definition renamed : Definition}
    (h : applyToDefinition renames definition = .ok renamed) :
    Option.Rel (RenamedContainer renames) definition.container? renamed.container? ∧
      RootTypes.named? renamed = RootTypes.named? definition ∧
      renamed.declaration?.map (·.name) = definition.declaration?.map (·.name) := by
  cases definition with
  | schema | directive =>
    obtain rfl := Except.ok.inj h
    exact ⟨.none, rfl, rfl⟩
  | type description declaration | extension declaration =>
    obtain ⟨renamed, hrenamed, rfl⟩ := map_eq_ok.1 h
    obtain ⟨name, directives, body⟩ := declaration
    cases body with
    | container kind interfaces fields =>
      obtain ⟨directives', fields', rfl, hdirectives, hfields⟩ := applyToDeclaration_eq_ok hrenamed
      exact ⟨.some ⟨rfl, rfl, hdirectives, hfields⟩, rfl, rfl⟩
    | _ =>
      obtain rfl := Except.ok.inj hrenamed
      exact ⟨.none, rfl, rfl⟩

/-! ## Documents -/

section Documents

variable {document renamed : Document} (h : applyToDocument renames document = .ok renamed)

include h

theorem forall₂_definitions :
    List.Forall₂ (fun d r => applyToDefinition renames d = .ok r) document.definitions
      renamed.definitions := by
  obtain ⟨definitions, hdefinitions, rfl⟩ := map_eq_ok.1 h
  exact allOrLast_eq_ok.1 hdefinitions

theorem forall₂_containers :
    List.Forall₂ (RenamedContainer renames) document.containers renamed.containers := by
  have hlift : Relator.LiftFun (fun d r => applyToDefinition renames d = .ok r)
      (Option.Rel (RenamedContainer renames)) Definition.container? Definition.container? :=
    fun _ _ h => (applyToDefinition_eq_ok h).1
  exact List.rel_filterMap hlift (forall₂_definitions h)

/-- Renaming fields renames every occurrence in its place. -/
theorem forall₂_occurrences :
    List.Forall₂ (Renamed renames) document.occurrences renamed.occurrences := by
  refine List.rel_flatMap (forall₂_containers h) fun container renamed hr => ?_
  rw [List.forall₂_map_left_iff, List.forall₂_map_right_iff]
  exact hr.fields.imp fun field renamed hf => ⟨hr, hf⟩

/-- Renaming fields keeps the types. -/
theorem ofDocument_renamed : RootTypes.ofDocument renamed = RootTypes.ofDocument document := by
  have hnamed : renamed.definitions.filterMap RootTypes.named? =
      document.definitions.filterMap RootTypes.named? :=
    filterMap_eq_of_forall₂ (forall₂_definitions h) fun _ _ h => (applyToDefinition_eq_ok h).2.1
  have hdeclared : renamed.declaredNames = document.declaredNames := by
    simp only [Document.declaredNames, Document.declarations, List.map_filterMap]
    exact filterMap_eq_of_forall₂ (forall₂_definitions h) fun _ _ h =>
      (applyToDefinition_eq_ok h).2.2
  have hoperations : RootTypes.operations renamed = RootTypes.operations document := by
    simp only [RootTypes.operations, RootTypes.conventional, hnamed, hdeclared]
  rw [RootTypes.ofDocument, RootTypes.ofDocument, hoperations, hdeclared]

end Documents

namespace Renamed

variable {o renamed : Occurrence} (h : Renamed renames o renamed)

include h

theorem typeName : renamed.container.name = o.container.name := h.container.name

theorem fieldName : renamed.field.name = apply renames o.container.name o.field.name := by
  obtain ⟨directives, -, hfield⟩ := applyToField_eq_ok h.field
  rw [hfield]

theorem coordinate : renamed.coordinate = (newNames renames).coordinate o.coordinate :=
  congr (congrArg Coordinate.mk h.typeName) h.fieldName

theorem type : renamed.field.type = o.field.type := by
  obtain ⟨directives, -, hfield⟩ := applyToField_eq_ok h.field
  rw [hfield]

theorem arguments : renamed.field.arguments = o.field.arguments := by
  obtain ⟨directives, -, hfield⟩ := applyToField_eq_ok h.field
  rw [hfield]

theorem isExternal : renamed.field.isExternal = o.field.isExternal := by
  obtain ⟨directives, hdirectives, hfield⟩ := applyToField_eq_ok h.field
  have hcarries := carries_congr (hdirectives.imp fun _ _ => name_of_applyToFieldDirective)
  rw [Field.isExternal, h.arguments, hfield, hcarries, Field.isExternal]

end Renamed

/-! ## Occurrences of a renamed schema -/

/-- `renamed` has the new name of `o`, with the same type and the same mark. -/
structure KeepsType (renames : List FieldRename) (o renamed : Occurrence) : Prop where
  coordinate : renamed.coordinate = (newNames renames).coordinate o.coordinate
  type : renamed.field.type = o.field.type
  isExternal : renamed.field.isExternal = o.field.isExternal

/-- This holds without renames too, where field sets need not be read. -/
theorem forall₂_keepsType {document renamed : Document}
    (h : applyUnlessEmpty renames document = .ok renamed) :
    List.Forall₂ (KeepsType renames) document.occurrences renamed.occurrences := by
  rcases applyUnlessEmpty_cases h with ⟨rfl, rfl⟩ | h
  · exact List.forall₂_same.2 fun o _ => ⟨rfl, rfl, rfl⟩
  · exact (forall₂_occurrences h).imp fun _ _ hr => ⟨hr.coordinate, hr.type, hr.isExternal⟩

end FieldRename

end Supergraph
