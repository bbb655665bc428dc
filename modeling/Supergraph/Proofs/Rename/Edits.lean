import Supergraph.Proofs.Rename.Fields
import Supergraph.Proofs.Rename.FieldSets
import Supergraph.Proofs.Rename.Lookups
import Supergraph.Proofs.Schema.Edits

/-!
# Renames as edits

Renaming fields goes through a document and reads every field set on its way. If all of them can be
read, it is an edit of the document; if not, it fails with the last failure
(`applyToDocument_eq`).

A field set is printed again only if one of its names is renamed, so it matters how often its text
is renamed. Two lists of renames, one after the other, are one edit (`edit_after`) if a third list
finds their new names at once. If a text is written as it would be printed, renames that give all
its names back give the text back (`fieldSet_fieldSet_eq_self`).
-/

namespace Supergraph

namespace FieldRename

open FieldSet (parse errorIn?)

/-- What the renames do to the fields of a document whose field sets can be read. -/
def edit (renames : List FieldRename) : FieldEdit where
  fieldName := apply renames
  fieldSet typeName text := (applyToFieldSetText renames typeName text).toOption.getD text

/-- A result, or the last of the failures on the way to it. -/
def orLast {α : Type} (failures : List Error) (a : α) : Except Error α :=
  match failures.getLast? with
  | some error => .error error
  | none => .ok a

variable {α β : Type} {renames : List FieldRename} {typeName : String}

theorem orLast_nil (a : α) : orLast [] a = .ok a := rfl

theorem map_orLast (failures : List Error) (a : α) (f : α → β) :
    (orLast failures a).map f = orLast failures (f a) := by
  unfold orLast
  split <;> rfl

theorem orLast_bind_pure (failures : List Error) (a : α) (f : α → β) :
    (orLast failures a >>= fun a => pure (f a)) = orLast failures (f a) := by
  unfold orLast
  split <;> rfl

theorem orLast_eq_ok {failures : List Error} {a b : α} :
    orLast failures a = .ok b ↔ failures = [] ∧ a = b := by
  unfold orLast
  split
  next error h =>
    have hne : failures ≠ [] := by
      rintro rfl
      cases h
    simp [hne]
  next h => simp [List.getLast?_eq_none_iff.1 h]

theorem allOrLast_orLast (failures : β → List Error) (f : β → α) (items : List β) :
    allOrLast (items.map fun item => orLast (failures item) (f item)) =
      orLast (items.flatMap failures) (items.map f) := by
  induction items with
  | nil => rfl
  | cons item items ih =>
    rw [List.map_cons, List.map_cons, List.flatMap_cons]
    unfold allOrLast
    rw [ih]
    unfold orLast
    rw [List.getLast?_append]
    cases (items.flatMap failures).getLast? <;> cases (failures item).getLast? <;> rfl

theorem applyToFieldSetText_eq (text : String) :
    applyToFieldSetText renames typeName text =
      orLast (FieldSet.errorIn? text).toList ((edit renames).fieldSet typeName text) := by
  unfold FieldSet.errorIn?
  cases hparse : FieldSet.parse text with
  | error error =>
    rw [applyToFieldSetText, hparse]
    rfl
  | ok fields =>
    obtain ⟨renamed, hrenamed⟩ : ∃ renamed,
        applyToFieldSetText renames typeName text = .ok renamed := by
      rw [applyToFieldSetText, hparse, ok_bind]
      split_ifs
      · exact ⟨_, rfl⟩
      · exact ⟨_, rfl⟩
    have hfieldSet : (edit renames).fieldSet typeName text = renamed := by
      simp [edit, hrenamed, Except.toOption]
    rw [hrenamed, hfieldSet]
    rfl

theorem applyToArguments_eq (arguments : List (String × Value)) :
    applyToArguments renames typeName arguments =
      orLast ((arguments.filterMap fieldText?).findSome? FieldSet.errorIn?).toList
        (arguments.map (mapFieldText ((edit renames).fieldSet typeName))) := by
  induction arguments with
  | nil => rfl
  | cons argument rest ih =>
    rcases fieldText_cases argument with ⟨text, rfl⟩ | ⟨hnone, hkept⟩
    · have hcons : applyToArguments renames typeName (("fields", .string text) :: rest) =
          (applyToFieldSetText renames typeName text).map Value.string >>= fun value =>
            applyToArguments renames typeName rest >>= fun rest =>
              pure (("fields", value) :: rest) := rfl
      have hfieldText : fieldText? ("fields", .string text) = some text := rfl
      rw [hcons, ih, applyToFieldSetText_eq, map_orLast, List.filterMap_cons_some hfieldText,
        List.findSome?_cons]
      -- A directive is not read further once one of its texts cannot be.
      cases FieldSet.errorIn? text with
      | some error => rfl
      | none => exact orLast_bind_pure _ _ _
    · have hcons : applyToArguments renames typeName (argument :: rest) =
          applyToArguments renames typeName rest >>= fun rest => pure (argument :: rest) := by
        obtain ⟨name, value⟩ := argument
        conv_lhs => unfold applyToArguments
        split
        next text => cases hnone
        next => rfl
      rw [hcons, ih, orLast_bind_pure, List.filterMap_cons_none hnone, List.map_cons, hkept]

theorem applyToDirective_eq (directive : Directive) :
    applyToDirective renames typeName directive =
      orLast directive.fieldSetError?.toList
        (directive.mapFieldTexts ((edit renames).fieldSet typeName)) := by
  rw [applyToDirective, applyToArguments_eq, orLast_bind_pure]
  rfl

theorem applyToFieldDirective_eq (field : Field) (directive : Directive) :
    applyToFieldDirective renames typeName field directive =
      orLast (((selectedType? typeName field directive).map
          (Selector.mk · directive)).bind (·.directive.fieldSetError?)).toList
        ((edit renames).onDirective (selectedType? typeName field directive) directive) := by
  unfold applyToFieldDirective
  cases selectedType? typeName field directive with
  | none => rfl
  | some selected => exact applyToDirective_eq directive

theorem applyToTypeDirective_eq (directive : Directive) :
    applyToTypeDirective renames typeName directive =
      orLast (((directive.keyType? typeName).map
          (Selector.mk · directive)).bind (·.directive.fieldSetError?)).toList
        ((edit renames).onDirective (directive.keyType? typeName) directive) := by
  unfold applyToTypeDirective Directive.keyType?
  split_ifs
  · exact applyToDirective_eq directive
  · rfl

theorem applyToField_eq (field : Field) :
    applyToField renames typeName field =
      orLast ((field.selectors typeName).filterMap (·.directive.fieldSetError?))
        (field.edit (edit renames) typeName) := by
  have hdirectives : allOrLast (field.directives.map
        (applyToFieldDirective renames typeName field)) =
      orLast ((field.selectors typeName).filterMap (·.directive.fieldSetError?))
        (field.edit (edit renames) typeName).directives := by
    rw [funext (applyToFieldDirective_eq field), allOrLast_orLast, Field.selectors,
      List.filterMap_filterMap, List.filterMap_eq_flatMap_toList]
    rfl
  rw [applyToField, hdirectives, orLast_bind_pure]
  rfl

theorem applyToDeclaration_eq {definition : Definition} {declaration : TypeDeclaration}
    (h : definition.declaration? = some declaration) :
    applyToDeclaration renames declaration =
      orLast (definition.selectors.filterMap (·.directive.fieldSetError?))
        (declaration.edit (edit renames)) := by
  obtain ⟨name, directives, body⟩ := declaration
  cases body with
  | container kind interfaces fields =>
    have hfields : allOrLast (fields.map (applyToField renames name)) =
        orLast ((fields.flatMap (·.selectors name)).filterMap (·.directive.fieldSetError?))
          (fields.map (·.edit (edit renames) name)) := by
      rw [funext applyToField_eq, allOrLast_orLast, List.filterMap_flatMap]
    have hdirectives : allOrLast (directives.map (applyToTypeDirective renames name)) =
        orLast ((directives.filterMap fun directive =>
            (directive.keyType? name).map (Selector.mk · directive)).filterMap
              (·.directive.fieldSetError?))
          ((edit renames).onTypeDirectives name directives) := by
      rw [funext applyToTypeDirective_eq, allOrLast_orLast, List.filterMap_filterMap,
        List.filterMap_eq_flatMap_toList]
      rfl
    have hselectors : definition.selectors =
        Container.selectors ⟨definition.isExtension, kind, name, directives, fields⟩ := by
      rw [Definition.selectors, Definition.container?, h, Option.toList_some,
        List.flatMap_singleton]
    rw [hselectors, Container.selectors, List.filterMap_append]
    unfold applyToDeclaration
    simp only [hfields, hdirectives]
    unfold orLast
    -- The error that counts is the last one, and the directives of the type come after its fields.
    rw [List.getLast?_append]
    cases List.getLast? _ <;> cases List.getLast? _ <;> rfl
  | _ =>
    have hselectors : definition.selectors = [] := by
      rw [Definition.selectors, Definition.container?, h]
      rfl
    rw [hselectors]
    rfl

theorem applyToDefinition_eq (definition : Definition) :
    applyToDefinition renames definition =
      orLast (definition.selectors.filterMap (·.directive.fieldSetError?))
        (definition.mapDeclaration (·.edit (edit renames))) := by
  cases definition with
  | schema | directive => rfl
  | type description declaration =>
    have h : (Definition.type description declaration).declaration? = some declaration := rfl
    rw [applyToDefinition, applyToDeclaration_eq h, map_orLast]
    rfl
  | extension declaration =>
    have h : (Definition.extension declaration).declaration? = some declaration := rfl
    rw [applyToDefinition, applyToDeclaration_eq h, map_orLast]
    rfl

/-- **Renaming fields is an edit**, unless some field set cannot be read. -/
theorem applyToDocument_eq (renames : List FieldRename) (document : Document) :
    applyToDocument renames document =
      orLast document.fieldSetErrors (document.edit (edit renames)) := by
  rw [applyToDocument, funext applyToDefinition_eq, allOrLast_orLast, map_orLast,
    Document.fieldSetErrors, Document.selectors_eq, List.filterMap_flatMap]
  rfl

/-! ## Renamed field sets -/

section FieldSets

variable {first second : List FieldRename} {text : String} {fields : FieldSet}

theorem fieldSet_of_error {error : Error} (h : parse text = .error error) :
    (edit renames).fieldSet typeName text = text := by
  show (applyToFieldSetText renames typeName text).toOption.getD text = text
  rw [applyToFieldSetText, h]
  rfl

theorem fieldSet_of_parse (h : parse text = .ok fields) :
    (edit renames).fieldSet typeName text =
      if fields.any fun field => (find? renames typeName field.name).isSome then
        (applyToFieldSet renames typeName fields).print
      else text := by
  conv_lhs => change (applyToFieldSetText renames typeName text).toOption.getD text
  rw [applyToFieldSetText, h, ok_bind]
  split_ifs <;> rfl

theorem applyToFieldSetText_of_parse (h : parse text = .ok fields) :
    applyToFieldSetText renames typeName text = .ok ((edit renames).fieldSet typeName text) := by
  rw [applyToFieldSetText_eq, FieldSet.errorIn?_of_parse h, Option.toList_none, orLast_nil]

theorem parse_fieldSet (hnames : ∀ r ∈ renames, Lexer.isName r.target.toList)
    (h : parse text = .ok fields) :
    parse ((edit renames).fieldSet typeName text) =
      .ok (applyToFieldSet renames typeName fields) := by
  obtain ⟨read, hread, hrenamed⟩ :=
    parse_of_applyToFieldSetText hnames (applyToFieldSetText_of_parse h)
  obtain rfl := Except.ok.inj (h.symm.trans hread)
  exact hrenamed

/-- A text that is written as it would be printed stays so. -/
theorem fieldSet_of_print (h : parse text = .ok fields) (hprint : fields.print = text) :
    (edit renames).fieldSet typeName text = (applyToFieldSet renames typeName fields).print := by
  rw [fieldSet_of_parse h]
  split_ifs with hany
  · rfl
  · rw [applyToFieldSet_eq_self (apply_eq_of_any hany), hprint]

/-- Renames that give all names back give such a text back. -/
theorem fieldSet_fieldSet_eq_self (hnames : ∀ r ∈ first, Lexer.isName r.target.toList)
    (h : parse text = .ok fields) (hprint : fields.print = text)
    (hback : ∀ field ∈ fields,
      apply second typeName (apply first typeName field.name) = field.name) :
    (edit second).fieldSet typeName ((edit first).fieldSet typeName text) = text := by
  have hsame : applyToFieldSet second typeName (applyToFieldSet first typeName fields) =
      fields := by
    rw [applyToFieldSet, applyToFieldSet, List.map_map]
    refine (List.map_congr_left ?_).trans (List.map_id _)
    intro field hfield
    have hname := hback field hfield
    cases field
    exact congrArg (SelectedField.mk · _) hname
  rw [fieldSet_of_print (parse_fieldSet hnames h) (fieldSet_of_print h hprint).symm, hsame, hprint]

section Joined

variable {both : List FieldRename}
  (hboth : ∀ typeName,
    Joined (find? first typeName) (find? second typeName) (find? both typeName))
  (hnames : ∀ r ∈ first, Lexer.isName r.target.toList)

include hboth

theorem apply_of_joined (typeName name : String) :
    apply both typeName name = apply second typeName (apply first typeName name) :=
  (hboth typeName).getD_eq name

theorem applyToFieldSet_of_joined (fields : FieldSet) :
    applyToFieldSet both typeName fields =
      applyToFieldSet second typeName (applyToFieldSet first typeName fields) := by
  simp only [applyToFieldSet, List.map_map, apply_of_joined hboth]
  rfl

theorem any_of_joined (fields : FieldSet) :
    (fields.any fun field => (find? both typeName field.name).isSome) =
      ((fields.any fun field => (find? first typeName field.name).isSome) ||
        (applyToFieldSet first typeName fields).any fun field =>
          (find? second typeName field.name).isSome) := by
  rw [Bool.eq_iff_iff, applyToFieldSet, List.any_map]
  simp only [Bool.or_eq_true, List.any_eq_true, (hboth typeName).isSome_eq, and_or_left, exists_or]
  rfl

include hnames

/-- A text is written once or twice in the same way. -/
theorem fieldSet_fieldSet (text : String) :
    (edit second).fieldSet typeName ((edit first).fieldSet typeName text) =
      (edit both).fieldSet typeName text := by
  cases hparse : parse text with
  | error error =>
    rw [fieldSet_of_error hparse, fieldSet_of_error hparse, fieldSet_of_error hparse]
  | ok fields =>
    rw [fieldSet_of_parse (parse_fieldSet hnames hparse), fieldSet_of_parse hparse,
      fieldSet_of_parse hparse, any_of_joined hboth, applyToFieldSet_of_joined hboth]
    by_cases hsecond : (applyToFieldSet first typeName fields).any fun field =>
        (find? second typeName field.name).isSome
    · simp only [hsecond, Bool.or_true, if_true]
    · rw [applyToFieldSet_eq_self (apply_eq_of_any hsecond)]
      simp only [hsecond, Bool.or_false, Bool.false_eq_true, if_false]

/-- Renames one after the other are one edit. -/
theorem edit_after : (edit second).after (edit first) = edit both := by
  have hname : (fun typeName name => apply second typeName (apply first typeName name)) =
      apply both := by
    funext typeName name
    exact (apply_of_joined hboth typeName name).symm
  have htext : (fun typeName text =>
      (edit second).fieldSet typeName ((edit first).fieldSet typeName text)) =
        (edit both).fieldSet := by
    funext typeName text
    exact fieldSet_fieldSet hboth hnames text
  exact congr (congrArg FieldEdit.mk hname) htext

end Joined

theorem edit_nil : edit [] = .keep := by
  have htext : (edit []).fieldSet = FieldEdit.keep.fieldSet := by
    funext typeName text
    cases hparse : parse text with
    | error error => exact fieldSet_of_error hparse
    | ok fields =>
      rw [fieldSet_of_parse hparse]
      exact if_neg (by simp [find?])
  exact congrArg (FieldEdit.mk _) htext

end FieldSets

/-! ## Renames of documents -/

section Documents

variable {first second : List FieldRename} {document : Document}

/-- Field sets that can be read can be read after the renames. -/
theorem fieldSetErrors_edit (hnames : ∀ r ∈ renames, Lexer.isName r.target.toList)
    (h : document.fieldSetErrors = []) : (document.edit (edit renames)).fieldSetErrors = [] := by
  rw [Document.fieldSetErrors_eq_nil] at h ⊢
  rw [Document.selectors_edit, List.forall_mem_map]
  intro selector hselector
  rw [Selector.edit, Directive.fieldTexts_mapFieldTexts, List.forall_mem_map]
  intro text htext
  obtain ⟨fields, hparse⟩ := FieldSet.parse_of_errorIn? (h selector hselector text htext)
  exact FieldSet.errorIn?_of_parse (parse_fieldSet hnames hparse)

theorem applyUnlessEmpty_eq (renames : List FieldRename) (document : Document) :
    applyUnlessEmpty renames document =
      orLast (if renames.isEmpty then [] else document.fieldSetErrors)
        (document.edit (edit renames)) := by
  unfold applyUnlessEmpty
  split_ifs with hempty
  · rw [List.isEmpty_iff.1 hempty, edit_nil, Document.edit_keep, orLast_nil]
  · exact applyToDocument_eq renames document

/-- Renames of a document one after the other fail where the first ones fail that read it. -/
theorem applyUnlessEmpty_bind (hnames : ∀ r ∈ first, Lexer.isName r.target.toList) :
    (applyUnlessEmpty first document >>= applyUnlessEmpty second) =
      orLast (if first.isEmpty && second.isEmpty then [] else document.fieldSetErrors)
        (document.edit ((edit second).after (edit first))) := by
  rw [applyUnlessEmpty_eq, ← Document.edit_edit]
  by_cases hfirst : first.isEmpty
  · simp only [hfirst, if_true, Bool.true_and, orLast_nil, ok_bind, applyUnlessEmpty_eq]
    rw [List.isEmpty_iff.1 hfirst, edit_nil, Document.edit_keep]
  · by_cases herrors : document.fieldSetErrors = []
    · simp only [herrors, ite_self, orLast_nil, ok_bind, applyUnlessEmpty_eq,
        fieldSetErrors_edit hnames herrors]
    · obtain ⟨error, herror⟩ := Option.isSome_iff_exists.1 (List.getLast?_isSome.2 herrors)
      simp only [hfirst, Bool.false_eq_true, if_false, Bool.false_and, orLast, herror]
      rfl

end Documents

end FieldRename

end Supergraph
