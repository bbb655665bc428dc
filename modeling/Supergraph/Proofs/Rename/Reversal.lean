import Supergraph.Proofs.Rename.Names

/-!
# Renames and back

A client that takes renames back calls with the same list, each rename turned around.

**Theorem (`renameTypes_swap`, `renameFields_swap`).** If no new name was in use before, the two
calls give the composite that they started with, the schema text included. New names for types may
have been in use if they are renamed themselves, so names may be swapped or passed on in a circle.

For each name this is said by `apply_swap`. What is left is that a composite has no other names, and
that texts are written as they would be printed: the text of the schema, and where fields are
renamed those of the field sets.
-/

namespace Supergraph

variable {α : Type} {composite : Composite α}

/-! ## Types -/

namespace TypeRename

variable {renames : List TypeRename}

/-- Renames that give all type names back give the composite back. -/
theorem agreeOn_keep_of_back {back : List TypeRename} (hempty : back.isEmpty = renames.isEmpty)
    (hback : ∀ name ∈ composite.typeNames, apply back (apply renames name) = name) :
    Change.AgreeOn composite ((change back).after (change renames)) (.keep renames.isEmpty) := by
  obtain ⟨hdocuments, hnodes, hfields⟩ := Composite.forall_mem_typeNames.1 hback
  constructor
  case idle => exact (congrArg (renames.isEmpty && ·) hempty).trans (Bool.and_self _)
  case document =>
    intro document hparse
    exact congrArg Except.ok
      (Document.mapTypeNames_cancel (hdocuments document (Composite.mem_documents.2 hparse)))
  case node =>
    intro node hnode
    exact congrArg (TypeFields.mk · _) (hnodes node hnode)
  case config =>
    intro config hconfig
    exact congrArg (FieldConfig.mk · _ _ _ _ _ _) (hfields config hconfig)

/-- **Renames of types can be taken back.** Their sources may be named twice: the first rename of a
type counts. -/
theorem renameTypes_swap (composite : Composite α) (renames : List TypeRename)
    (hprinted : normalizeSchema composite.schema = .ok composite.schema)
    (htargets : (renames.map (·.target)).Nodup)
    (hfresh : ∀ r ∈ renames, r.target ∈ composite.typeNames →
      r.target ∈ renames.map (·.source))
    (hreads : (RenameCall.types renames).Rereads composite.schema) :
    (composite.renameTypes renames >>= Composite.renameTypes (renames.map swap)) =
      .ok composite := by
  have hback : ∀ name ∈ composite.typeNames,
      apply (renames.map swap) (apply renames name) = name := by
    intro name hname
    refine apply_swap htargets ?_
    intro htarget
    obtain ⟨r, hr, rfl⟩ := List.mem_map.1 htarget
    exact hfresh r hr hname
  have hempty : (renames.map swap).isEmpty = renames.isEmpty := List.isEmpty_map
  calc composite.renameTypes renames >>= Composite.renameTypes (renames.map swap)
    _ = ((change (renames.map swap)).after (change renames)).apply composite :=
      RenameCall.apply_bind_apply hreads (.types (renames.map swap))
    _ = (Change.keep renames.isEmpty).apply composite :=
      Change.apply_congr (agreeOn_keep_of_back hempty hback)
    _ = .ok composite := Change.apply_keep _ hprinted

/-- The names of two types are exchanged, and back. -/
theorem renameTypes_swap_books :
    let renames : List TypeRename :=
      [⟨"Book", "Query"⟩, ⟨"Query", "Book"⟩, ⟨"ID", "Key"⟩]
    (∃ renamed ∈ (books.renameTypes renames).toOption,
      renamed.nodes.map (·.typeName) = ["Book", "Query"]) ∧
    (books.renameTypes renames >>= Composite.renameTypes (renames.map swap)) = .ok books := by
  intro renames
  obtain ⟨hchanged, hprinted, hfresh, hreads⟩ :
      (∃ renamed ∈ (books.renameTypes renames).toOption,
        renamed.nodes.map (·.typeName) = ["Book", "Query"]) ∧
      normalizeSchema books.schema = .ok books.schema ∧
      (∀ r ∈ renames, r.target ∈ books.typeNames → r.target ∈ renames.map (·.source)) ∧
      (RenameCall.types renames).Rereads books.schema := by
    decide +kernel
  exact ⟨hchanged, renameTypes_swap books renames hprinted (by decide) hfresh hreads⟩

end TypeRename

/-! ## Fields -/

/-- Whether all field sets are written as they would be printed. -/
def Document.PrintsFieldSets (document : Document) : Prop :=
  ∀ selector ∈ document.selectors, ∀ text ∈ selector.directive.fieldTexts,
    (FieldSet.parse text).map FieldSet.print = .ok text

instance : DecidablePred Document.PrintsFieldSets :=
  fun _ => inferInstanceAs (Decidable (∀ _ ∈ _, ∀ _ ∈ _, _ = _))

namespace FieldRename

variable {renames back : List FieldRename} {document : Document}

theorem fieldSetErrors_eq_nil_of_printsFieldSets (h : document.PrintsFieldSets) :
    document.fieldSetErrors = [] := by
  rw [Document.fieldSetErrors_eq_nil]
  intro selector hselector text htext
  obtain ⟨fields, hparse, -⟩ := map_eq_ok.1 (h selector hselector text htext)
  exact FieldSet.errorIn?_of_parse hparse

/-- Renames that give all field names of a document back give the document back. -/
theorem edit_edit_eq_self (hnames : ∀ r ∈ renames, Lexer.isName r.target.toList)
    (hprints : document.PrintsFieldSets)
    (hdeclared : ∀ field ∈ document.declaredFields,
      apply back field.typeName (apply renames field.typeName field.fieldName) = field.fieldName)
    (hselected : ∀ field ∈ document.selectedFields,
      apply back field.typeName (apply renames field.typeName field.fieldName) =
        field.fieldName) :
    document.edit ((edit back).after (edit renames)) = document := by
  refine (Document.edit_congr ?_).trans document.edit_keep
  intro container hcontainer
  constructor
  case fieldName =>
    intro field hfield
    have hoccurs : ⟨container, field⟩ ∈ document.occurrences :=
      Document.mem_occurrences.2 ⟨hcontainer, hfield⟩
    exact hdeclared _ (List.mem_map_of_mem hoccurs)
  case fieldSet =>
    intro selector hselector text htext
    have hselector : selector ∈ document.selectors :=
      List.mem_flatMap.2 ⟨container, hcontainer, hselector⟩
    obtain ⟨fields, hparse, hprint⟩ := map_eq_ok.1 (hprints selector hselector text htext)
    rw [FieldEdit.fieldSet_after]
    -- The text may be printed anew both times, which is why it has to be as it is printed.
    refine fieldSet_fieldSet_eq_self hnames hparse hprint ?_
    intro field hfield
    have hname : field.name ∈ FieldSet.namesIn text := by
      rw [FieldSet.namesIn_of_parse hparse]
      exact List.mem_map_of_mem hfield
    have hfields : ⟨selector.typeName, field.name⟩ ∈ selector.fields :=
      List.mem_flatMap.2 ⟨text, htext, List.mem_map_of_mem hname⟩
    exact hselected _ (List.mem_flatMap.2 ⟨selector, hselector, hfields⟩)

/-- What is written into the path of a renamed field has to be new there. -/
theorem applyToFieldConfig_applyToFieldConfig_eq_self {config : FieldConfig}
    (hback : ∀ field ∈ config.namedFields,
      apply back field.typeName (apply renames field.typeName field.fieldName) = field.fieldName)
    (hpath : ∀ r ∈ renames, r.targetField ∉ config.pathFields) :
    applyToFieldConfig back (applyToFieldConfig renames config) = config := by
  have hnew : apply renames config.typeName config.fieldName ≠ config.fieldName →
      apply renames config.typeName config.fieldName ∉ config.path := by
    intro hchanged hmem
    rcases apply_cases renames config.typeName config.fieldName with hsame | ⟨r, hr, -, htarget⟩
    · exact hchanged hsame
    · exact hpath r hr (htarget ▸ List.mem_map_of_mem hmem)
  rw [applyToFieldConfig_eq_mapFields, applyToFieldConfig_eq_mapFields]
  show (config.mapFields (apply renames config.typeName)).mapFields
    (apply back config.typeName) = config
  rw [FieldConfig.mapFields_mapFields fun hchanged hmem => absurd hmem (hnew hchanged)]
  refine (FieldConfig.mapFields_congr ?_).trans config.mapFields_id
  intro field hfield
  obtain ⟨name, -, rfl⟩ := List.mem_map.1 hfield
  exact hback _ hfield

/-- Renames that give all field names back give the composite back. -/
theorem agreeOn_keep_of_back (hempty : back.isEmpty = renames.isEmpty)
    (hnames : ∀ r ∈ renames, Lexer.isName r.target.toList)
    (hprints : ∀ document ∈ composite.documents, document.PrintsFieldSets)
    (hback : ∀ field ∈ composite.namedFields,
      apply back field.typeName (apply renames field.typeName field.fieldName) = field.fieldName)
    (hpaths : ∀ r ∈ renames, r.targetField ∉ composite.pathFields) :
    Change.AgreeOn composite ((change back).after (change renames)) (.keep renames.isEmpty) := by
  obtain ⟨hdocuments, hnodes, hfields⟩ := Composite.forall_mem_namedFields.1 hback
  constructor
  case idle => exact (congrArg (renames.isEmpty && ·) hempty).trans (Bool.and_self _)
  case document =>
    intro document hparse
    have hmem : document ∈ composite.documents := Composite.mem_documents.2 hparse
    obtain ⟨hdeclared, hselected⟩ := hdocuments document hmem
    show (applyUnlessEmpty renames document >>= applyUnlessEmpty back) = .ok document
    -- Field sets that can be read stay so, and the second call meets no error either.
    rw [applyUnlessEmpty_bind hnames,
      fieldSetErrors_eq_nil_of_printsFieldSets (hprints document hmem), ite_self, orLast_nil,
      edit_edit_eq_self hnames (hprints document hmem) hdeclared hselected]
  case node =>
    intro node hnode
    refine congrArg (TypeFields.mk node.typeName) ?_
    show (node.fieldNames.map (apply renames node.typeName)).map (apply back node.typeName) = _
    rw [List.map_map]
    refine (List.map_congr_left ?_).trans (List.map_id _)
    intro name hname
    exact hnodes node hnode _ (List.mem_map_of_mem hname)
  case config =>
    intro config hconfig
    refine applyToFieldConfig_applyToFieldConfig_eq_self (hfields config hconfig) ?_
    intro r hr hmem
    exact hpaths r hr (List.mem_flatMap.2 ⟨config, hconfig, hmem⟩)

/-- **Renames of fields can be taken back.** The sources may be named twice here too. -/
theorem renameFields_swap (composite : Composite α) (renames : List FieldRename)
    (hprinted : normalizeSchema composite.schema = .ok composite.schema)
    (hprints : ∀ document ∈ composite.documents, document.PrintsFieldSets)
    (hnames : ∀ r ∈ renames, Lexer.isName r.target.toList)
    (htargets : (renames.map (·.targetField)).Nodup)
    (hfresh : ∀ r ∈ renames, r.targetField ∉ composite.namedFields ∧
      r.targetField ∉ composite.pathFields)
    (hreads : (RenameCall.fields renames).Rereads composite.schema) :
    (composite.renameFields renames >>= Composite.renameFields (renames.map swap)) =
      .ok composite := by
  have hback : ∀ field ∈ composite.namedFields,
      apply (renames.map swap) field.typeName (apply renames field.typeName field.fieldName) =
        field.fieldName := by
    intro field hfield
    refine apply_swap htargets ?_
    intro htarget
    obtain ⟨r, hr, hsame⟩ := List.mem_map.1 htarget
    exact (hfresh r hr).1 (hsame ▸ hfield)
  have hempty : (renames.map swap).isEmpty = renames.isEmpty := List.isEmpty_map
  have hpaths : ∀ r ∈ renames, r.targetField ∉ composite.pathFields := by
    intro r hr
    exact (hfresh r hr).2
  calc composite.renameFields renames >>= Composite.renameFields (renames.map swap)
    _ = ((change (renames.map swap)).after (change renames)).apply composite :=
      RenameCall.apply_bind_apply hreads (.fields (renames.map swap))
    _ = (Change.keep renames.isEmpty).apply composite :=
      Change.apply_congr (agreeOn_keep_of_back hempty hnames hprints hback hpaths)
    _ = .ok composite := Change.apply_keep _ hprinted

/-- Fields that stand in field sets and paths get new names, and the old ones back. -/
theorem renameFields_swap_books :
    let renames : List FieldRename := [⟨"Book", "id", "isbn"⟩, ⟨"Book", "twin", "copy"⟩]
    (∃ renamed ∈ (books.renameFields renames).toOption,
      renamed.fields.map (·.path) = [["copy", "item"]]) ∧
    (books.renameFields renames >>= Composite.renameFields (renames.map swap)) = .ok books := by
  intro renames
  obtain ⟨hchanged, hprinted, hprints, hfresh, hreads⟩ :
      (∃ renamed ∈ (books.renameFields renames).toOption,
        renamed.fields.map (·.path) = [["copy", "item"]]) ∧
      normalizeSchema books.schema = .ok books.schema ∧
      (∀ document ∈ books.documents, document.PrintsFieldSets) ∧
      (∀ r ∈ renames, r.targetField ∉ books.namedFields ∧
        r.targetField ∉ books.pathFields) ∧
      (RenameCall.fields renames).Rereads books.schema := by
    decide +kernel
  exact ⟨hchanged, renameFields_swap books renames hprinted hprints (by decide +kernel)
    (by decide) hfresh hreads⟩

end FieldRename

end Supergraph
