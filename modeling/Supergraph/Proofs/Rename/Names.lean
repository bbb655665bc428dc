import Supergraph.Proofs.Rename.Changes

/-!
# The names in a composite

A composite names types and fields in its schema, in its nodes and in its field configurations.
`Composite.typeNames` and `Composite.namedFields` list these names wherever they stand.

**Theorem (`typeNames_of_renameTypes`, `namedFields_of_renameFields`).** A call substitutes all
names at once: in each place the new name is what the renames make of the old one, and no name is
renamed twice.
-/

namespace Supergraph

namespace Document

def declaredFields (document : Document) : List Coordinate :=
  document.occurrences.map (·.coordinate)

/-- The fields that the field sets of a document select at their top level. -/
def selectedFields (document : Document) : List Coordinate :=
  document.selectors.flatMap (·.fields)

end Document

namespace Composite

variable {α : Type}

/-- The document of the schema, if there is one. -/
def documents (composite : Composite α) : List Document :=
  (parseSchema composite.schema).toOption.toList

/-- The types that a composite names. -/
def typeNames (composite : Composite α) : List String :=
  composite.documents.flatMap (·.typeNames) ++ composite.nodes.map (·.typeName) ++
    composite.fields.map (·.typeName)

/-- The fields that a composite names, apart from the paths of its field configurations. -/
def namedFields (composite : Composite α) : List Coordinate :=
  composite.documents.flatMap
      (fun document => document.declaredFields ++ document.selectedFields) ++
    composite.nodes.flatMap (·.coordinates) ++ composite.fields.flatMap (·.namedFields)

/-- The items of the paths of field configurations. -/
def pathFields (composite : Composite α) : List Coordinate :=
  composite.fields.flatMap (·.pathFields)

variable {composite : Composite α} {document : Document}

theorem mem_documents : document ∈ composite.documents ↔
    parseSchema composite.schema = .ok document := by
  rw [documents, Option.mem_toList]
  exact mem_toOption

theorem forall_mem_typeNames {p : String → Prop} : (∀ name ∈ composite.typeNames, p name) ↔
    (∀ document ∈ composite.documents, ∀ name ∈ document.typeNames, p name) ∧
      (∀ node ∈ composite.nodes, p node.typeName) ∧
        ∀ config ∈ composite.fields, p config.typeName := by
  simp only [typeNames, List.forall_mem_append, List.forall_mem_map, List.forall_mem_flatMap,
    and_assoc]

theorem forall_mem_namedFields {p : Coordinate → Prop} :
    (∀ field ∈ composite.namedFields, p field) ↔
      (∀ document ∈ composite.documents,
        (∀ field ∈ document.declaredFields, p field) ∧
          ∀ field ∈ document.selectedFields, p field) ∧
        (∀ node ∈ composite.nodes, ∀ field ∈ node.coordinates, p field) ∧
          ∀ config ∈ composite.fields, ∀ field ∈ config.namedFields, p field := by
  simp only [namedFields, List.forall_mem_append, List.forall_mem_flatMap, and_assoc]

end Composite

/-! ## Edited documents -/

section Edits

variable {renames : List FieldRename}

open FieldRename (apply newNames)

theorem Document.declaredFields_edit (document : Document) :
    (document.edit (FieldRename.edit renames)).declaredFields =
      document.declaredFields.map (newNames renames).coordinate := by
  simp only [declaredFields, occurrences, containers_edit, Container.edit, List.flatMap_map,
    List.map_flatMap, List.map_map]
  rfl

/-- A field set that cannot be read selects nothing, before and after the renames. -/
theorem FieldRename.namesIn_fieldSet (hnames : ∀ r ∈ renames, Lexer.isName r.target.toList)
    (typeName text : String) :
    FieldSet.namesIn ((FieldRename.edit renames).fieldSet typeName text) =
      (FieldSet.namesIn text).map (apply renames typeName) := by
  cases hparse : FieldSet.parse text with
  | error error =>
    rw [fieldSet_of_error hparse]
    unfold FieldSet.namesIn
    rw [hparse]
    rfl
  | ok fields =>
    rw [FieldSet.namesIn_of_parse (parse_fieldSet hnames hparse),
      FieldSet.namesIn_of_parse hparse]
    exact names_applyToFieldSet fields

theorem Document.selectedFields_edit (hnames : ∀ r ∈ renames, Lexer.isName r.target.toList)
    (document : Document) :
    (document.edit (FieldRename.edit renames)).selectedFields =
      document.selectedFields.map (newNames renames).coordinate := by
  rw [selectedFields, selectors_edit, List.flatMap_map, selectedFields, List.map_flatMap]
  refine List.flatMap_congr ?_
  intro selector _
  rw [Selector.fields, Selector.edit, Directive.fieldTexts_mapFieldTexts, List.flatMap_map,
    Selector.fields, List.map_flatMap]
  refine List.flatMap_congr ?_
  intro text _
  rw [FieldRename.namesIn_fieldSet hnames, List.map_map, List.map_map]
  rfl

end Edits

/-! ## Names after a call -/

namespace Change

variable {α : Type} {change : Change} {composite renamed : Composite α}

theorem nodes_of_apply (happly : change.apply composite = .ok renamed) :
    renamed.nodes = composite.nodes.map change.node := by
  obtain ⟨schema, -, rfl⟩ := map_eq_ok.1 happly
  simp [Composite.nodes, DataSource.mapNodes, List.flatMap_map, List.map_flatMap]

theorem fields_of_apply (happly : change.apply composite = .ok renamed) :
    renamed.fields = composite.fields.map change.config := by
  obtain ⟨schema, -, rfl⟩ := map_eq_ok.1 happly
  rfl

end Change

section Calls

variable {α : Type} {composite renamed : Composite α}

/-- **Renaming types substitutes type names**, all at once. -/
theorem typeNames_of_renameTypes {renames : List TypeRename}
    (happly : composite.renameTypes renames = .ok renamed)
    (hreads : (RenameCall.types renames).Rereads composite.schema) :
    renamed.typeNames = composite.typeNames.map (TypeRename.apply renames) := by
  rw [RenameCall.Rereads, ← RenameCall.printed?_change] at hreads
  have happly := ((RenameCall.types renames).apply_change composite).trans happly
  have hdocuments : renamed.documents =
      composite.documents.map (·.mapTypeNames (TypeRename.apply renames)) := by
    rw [Composite.documents, Change.document_of_apply happly hreads, Composite.documents]
    cases parseSchema composite.schema <;> rfl
  rw [Composite.typeNames, hdocuments, Change.nodes_of_apply happly,
    Change.fields_of_apply happly]
  simp only [Composite.typeNames, List.map_append, List.map_flatMap, List.flatMap_map,
    List.map_map, Document.typeNames_mapTypeNames]
  rfl

/-- **Renaming fields substitutes field names**, all at once. -/
theorem namedFields_of_renameFields {renames : List FieldRename}
    (hnames : ∀ r ∈ renames, Lexer.isName r.target.toList)
    (happly : composite.renameFields renames = .ok renamed)
    (hreads : (RenameCall.fields renames).Rereads composite.schema) :
    renamed.namedFields = composite.namedFields.map (FieldRename.newNames renames).coordinate := by
  rw [RenameCall.Rereads, ← RenameCall.printed?_change] at hreads
  have happly := ((RenameCall.fields renames).apply_change composite).trans happly
  have hdocuments : renamed.documents =
      composite.documents.map (·.edit (FieldRename.edit renames)) := by
    rw [Composite.documents, Change.document_of_apply happly hreads, Composite.documents]
    cases hparse : parseSchema composite.schema with
    | error error => rfl
    | ok document =>
      obtain ⟨changed, hchanged⟩ := Change.document_ok_of_apply happly hparse
      -- The call has gone well, so no field set was in error and the document is edited.
      have hedit := (FieldRename.applyUnlessEmpty_eq renames document).symm.trans hchanged
      obtain ⟨-, rfl⟩ := FieldRename.orLast_eq_ok.1 hedit
      exact congrArg (fun result => (Except.toOption result).toList) hchanged
  have hnodes : renamed.nodes.flatMap (·.coordinates) =
      (composite.nodes.flatMap (·.coordinates)).map
        (FieldRename.newNames renames).coordinate := by
    rw [Change.nodes_of_apply happly]
    exact NodeList.coordinates_map_node (FieldRename.newNames renames) composite.nodes
  have hfields : renamed.fields.flatMap (·.namedFields) =
      (composite.fields.flatMap (·.namedFields)).map
        (FieldRename.newNames renames).coordinate := by
    rw [Change.fields_of_apply happly, List.flatMap_map, List.map_flatMap]
    refine List.flatMap_congr ?_
    intro config _
    exact FieldRename.namedFields_applyToFieldConfig config
  rw [Composite.namedFields, hdocuments, hnodes, hfields]
  simp only [Composite.namedFields, List.map_append, List.map_flatMap, List.flatMap_map,
    Document.declaredFields_edit, Document.selectedFields_edit hnames]

/-- In a path only the name of the field itself gets its new name. -/
theorem paths_of_renameFields {renames : List FieldRename}
    (happly : composite.renameFields renames = .ok renamed) :
    renamed.fields.map (·.path) = composite.fields.map fun config =>
      FieldRename.applyToPath config.fieldName
        (FieldRename.apply renames config.typeName config.fieldName) config.path := by
  have happly := ((RenameCall.fields renames).apply_change composite).trans happly
  rw [Change.fields_of_apply happly, List.map_map]
  refine List.map_congr_left ?_
  intro config _
  exact congrArg FieldConfig.path (FieldRename.applyToFieldConfig_eq_mapFields config)

end Calls

/-! ## Books -/

/-- Books of a service, with field sets of all kinds. The texts of the schema and of its field sets
are written as they would be printed. -/
def books : Composite RestPayload :=
  .make
    ("type Query \x7b\n  book: Book @provides(fields: \"id\")\n\x7d\n\n" ++
      "type Book @key(fields: \"id\") \x7b\n  id: ID\n" ++
      "  twin: Book @requires(fields: \"id\")\n\x7d\n")
    [⟨none, .rest, [⟨"Query", ["book"]⟩], [⟨"Book", ["id", "twin"]⟩], .blank, [], 0⟩]
    [{ FieldConfig.blank ⟨"Book", "twin"⟩ with
      path := ["twin", "item"]
      arguments := [.objectField "of" ["id"]]
      requires := ["id"] }] [] []

end Supergraph
