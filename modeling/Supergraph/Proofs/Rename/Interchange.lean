import Mathlib.Data.Set.Function
import Supergraph.Proofs.Rename.Names

/-!
# Renames in any order

Clients rename types and fields in several calls, and the order of the calls can differ.

**Theorem (`renameFields_renameTypes`).** Renames of fields and of types can be exchanged, if the
renames of types keep all types apart. The renames of fields speak of a type by the name that it has
when they are made.

**Theorem (`independent_renames`).** Renames that mention no common name can be made in any order,
and at once in one list.

Both are equations between changes (`Change.apply_congr`), so they are proved part by part. In the
schema it matters that field sets which select fields of a type are found under its new name, and
that a field set which is renamed twice is written as if it were renamed once.
-/

namespace Supergraph

variable {α : Type} {composite : Composite α}

/-! ## Fields and types -/

namespace FieldRename

variable {renames others : List FieldRename} {typeName other : String}

theorem apply_congr (h : ∀ name, find? renames typeName name = find? others other name) :
    apply renames typeName = apply others other := by
  funext name
  rw [apply, h, apply]

/-- Only the new names count, and not the type that they are looked up with. -/
theorem fieldSet_congr (h : ∀ name, find? renames typeName name = find? others other name)
    (text : String) : (edit renames).fieldSet typeName text =
      (edit others).fieldSet other text := by
  cases hparse : FieldSet.parse text with
  | error error => rw [fieldSet_of_error hparse, fieldSet_of_error hparse]
  | ok fields =>
    have hfields : applyToFieldSet renames typeName fields =
        applyToFieldSet others other fields := by
      rw [applyToFieldSet, apply_congr h, applyToFieldSet]
    rw [fieldSet_of_parse hparse, fieldSet_of_parse hparse, hfields]
    simp only [h]

section Translate

variable {f : String → String} {document : Document}
  (hlookup : ∀ typeName ∈ document.typeNames, ∀ name,
    find? (renames.map (translate f)) (f typeName) name = find? renames typeName name)

include hlookup

theorem edit_translate : (document.mapTypeNames f).edit (edit (renames.map (translate f))) =
    (document.edit (edit renames)).mapTypeNames f := by
  rw [Document.edit_mapTypeNames]
  refine congrArg (Document.mapTypeNames f) (Document.edit_congr ?_)
  intro container hcontainer
  constructor
  case fieldName =>
    intro field _
    have hname : container.name ∈ document.typeNames :=
      Document.mem_typeNames_of_declared (Document.declared_of_mem_containers hcontainer)
    exact congrFun (apply_congr (hlookup _ hname)) field.name
  case fieldSet =>
    intro selector hselector text _
    have hname : selector.typeName ∈ document.typeNames :=
      Document.mem_typeNames_of_mem_selectors
        (List.mem_flatMap.2 ⟨container, hcontainer, hselector⟩)
    exact fieldSet_congr (hlookup _ hname) text

theorem applyUnlessEmpty_translate :
    applyUnlessEmpty (renames.map (translate f)) (document.mapTypeNames f) =
      applyUnlessEmpty renames document >>= fun renamed => .ok (renamed.mapTypeNames f) := by
  have herrors : (if (renames.map (translate f)).isEmpty then []
      else (document.mapTypeNames f).fieldSetErrors) =
        if renames.isEmpty then [] else document.fieldSetErrors := by
    rw [List.isEmpty_map, Document.fieldSetErrors_mapTypeNames]
  rw [applyUnlessEmpty_eq, applyUnlessEmpty_eq, edit_translate hlookup, herrors]
  exact (orLast_bind_pure _ _ _).symm

end Translate

/-- Renames of fields and types, in both orders. -/
theorem agreeOn_translate {fields : List FieldRename} {types : List TypeRename}
    (hlookup : ∀ typeName ∈ composite.typeNames, ∀ name,
      find? (fields.map (translate (TypeRename.apply types))) (TypeRename.apply types typeName)
        name = find? fields typeName name) :
    Change.AgreeOn composite ((TypeRename.change types).after (change fields))
      ((change (fields.map (translate (TypeRename.apply types)))).after
        (TypeRename.change types)) := by
  obtain ⟨hdocuments, hnodes, hfields⟩ := Composite.forall_mem_typeNames.1 hlookup
  constructor
  case idle =>
    show (fields.isEmpty && types.isEmpty) = (types.isEmpty && (fields.map _).isEmpty)
    rw [List.isEmpty_map, Bool.and_comm]
  case document =>
    intro document hparse
    exact (applyUnlessEmpty_translate (hdocuments document
      (Composite.mem_documents.2 hparse))).symm
  case node =>
    intro node hnode
    exact congrArg (TypeFields.mk _ <| node.fieldNames.map ·)
      (apply_congr (hnodes node hnode)).symm
  case config =>
    intro config hconfig
    have hnames := apply_congr (hfields config hconfig)
    show { applyToFieldConfig fields config with
        typeName := TypeRename.apply types (applyToFieldConfig fields config).typeName } =
      applyToFieldConfig _ { config with typeName := TypeRename.apply types config.typeName }
    -- The path and the required fields only depend on what the renames say of the type.
    rw [applyToFieldConfig_eq_mapFields, applyToFieldConfig_eq_mapFields]
    simp only [FieldConfig.mapFields, hnames]

end FieldRename

/-- **Renames of fields and of types can be exchanged.** -/
theorem renameFields_renameTypes (composite : Composite α) (fields : List FieldRename)
    (types : List TypeRename)
    (hinj : Set.InjOn (TypeRename.apply types)
      {name | name ∈ composite.typeNames ∨ name ∈ fields.map (·.typeName)})
    (hfields : (RenameCall.fields fields).Rereads composite.schema)
    (htypes : (RenameCall.types types).Rereads composite.schema) :
    (composite.renameFields fields >>= Composite.renameTypes types) =
      (composite.renameTypes types >>= Composite.renameFields
        (fields.map (FieldRename.translate (TypeRename.apply types)))) := by
  have hlookup : ∀ typeName ∈ composite.typeNames, ∀ name,
      FieldRename.find? (fields.map (FieldRename.translate (TypeRename.apply types)))
        (TypeRename.apply types typeName) name = FieldRename.find? fields typeName name := by
    intro typeName htype name
    refine FieldRename.find?_translate ?_ name
    intro r hr hsame
    exact hinj (.inr (List.mem_map_of_mem hr)) (.inl htype) hsame
  calc composite.renameFields fields >>= Composite.renameTypes types
    _ = ((TypeRename.change types).after (FieldRename.change fields)).apply composite :=
      RenameCall.apply_bind_apply hfields (.types types)
    _ = ((FieldRename.change (fields.map (.translate (TypeRename.apply types)))).after
          (TypeRename.change types)).apply composite :=
      Change.apply_congr (FieldRename.agreeOn_translate hlookup)
    _ = composite.renameTypes types >>= Composite.renameFields
          (fields.map (.translate (TypeRename.apply types))) :=
      (RenameCall.apply_bind_apply htypes (.fields _)).symm

/-- The types that a field rename speaks of are exchanged. -/
theorem renameFields_renameTypes_books :
    let fields : List FieldRename := [⟨"Book", "id", "isbn"⟩]
    let types : List TypeRename := [⟨"Book", "Query"⟩, ⟨"Query", "Book"⟩]
    fields.map (FieldRename.translate (TypeRename.apply types)) = [⟨"Query", "id", "isbn"⟩] ∧
    (books.renameFields fields >>= Composite.renameTypes types) =
      (books.renameTypes types >>= Composite.renameFields
        (fields.map (FieldRename.translate (TypeRename.apply types)))) := by
  intro fields types
  obtain ⟨hinj, hfields, htypes⟩ :
      (∀ x ∈ books.typeNames ++ fields.map (·.typeName),
        ∀ y ∈ books.typeNames ++ fields.map (·.typeName),
          TypeRename.apply types x = TypeRename.apply types y → x = y) ∧
      (RenameCall.fields fields).Rereads books.schema ∧
      (RenameCall.types types).Rereads books.schema := by
    decide +kernel
  refine ⟨by decide, renameFields_renameTypes books fields types ?_ hfields htypes⟩
  intro x hx y hy
  exact hinj x (List.mem_append.2 hx) y (List.mem_append.2 hy)

/-! ## Renames of one kind -/

namespace TypeRename

/-- Two lists of renames are one, if it finds what they find one after the other. -/
theorem agreeOn_of_joined {first second both : List TypeRename}
    (hboth : Joined (find? first) (find? second) (find? both))
    (hempty : both.isEmpty = (first.isEmpty && second.isEmpty)) :
    Change.AgreeOn composite ((change second).after (change first)) (change both) := by
  -- Two lookups, one after the other, are the lookup in both lists.
  have happly : apply second ∘ apply first = apply both := by
    funext name
    exact (hboth.getD_eq name).symm
  constructor
  case idle => exact hempty.symm
  case document =>
    intro document _
    refine congrArg Except.ok ?_
    rw [Document.mapTypeNames_mapTypeNames, happly]
  case node =>
    intro node _
    exact congrArg (TypeFields.mk · _) (congrFun happly node.typeName)
  case config =>
    intro config _
    exact congrArg (FieldConfig.mk · _ _ _ _ _ _) (congrFun happly config.typeName)

theorem renameTypes_renameTypes {first second both : List TypeRename}
    (hboth : Joined (find? first) (find? second) (find? both))
    (hempty : both.isEmpty = (first.isEmpty && second.isEmpty))
    (hreads : (RenameCall.types first).Rereads composite.schema) :
    (composite.renameTypes first >>= Composite.renameTypes second) =
      composite.renameTypes both :=
  RenameCall.apply_bind_apply_of_agreeOn (.types first) (.types second) (.types both) hreads
    (agreeOn_of_joined hboth hempty)

end TypeRename

namespace FieldRename

/-- Two lists of renames are one, if it finds what they find one after the other. -/
theorem agreeOn_of_joined {first second both : List FieldRename}
    (hboth : ∀ typeName,
      Joined (find? first typeName) (find? second typeName) (find? both typeName))
    (hempty : both.isEmpty = (first.isEmpty && second.isEmpty))
    (hnames : ∀ r ∈ first, Lexer.isName r.target.toList) :
    Change.AgreeOn composite ((change second).after (change first)) (change both) := by
  have happly : ∀ typeName, apply second typeName ∘ apply first typeName =
      apply both typeName := by
    intro typeName
    funext name
    exact (apply_of_joined hboth typeName name).symm
  constructor
  case idle => exact hempty.symm
  case document =>
    intro document _
    show (applyUnlessEmpty first document >>= applyUnlessEmpty second) =
      applyUnlessEmpty both document
    rw [applyUnlessEmpty_bind hnames, edit_after hboth hnames, applyUnlessEmpty_eq, hempty]
  case node =>
    intro node _
    refine congrArg (TypeFields.mk node.typeName) ?_
    show (node.fieldNames.map _).map _ = node.fieldNames.map _
    rw [List.map_map, ← happly]
    rfl
  case config =>
    intro config _
    show applyToFieldConfig second (applyToFieldConfig first config) =
      applyToFieldConfig both config
    simp only [applyToFieldConfig_eq_mapFields]
    show (config.mapFields (apply first config.typeName)).mapFields
      (apply second config.typeName) = _
    rw [FieldConfig.mapFields_mapFields, happly]
    intro hchanged _
    exact (hboth config.typeName).getD_kept hchanged

theorem renameFields_renameFields {first second both : List FieldRename}
    (hboth : ∀ typeName,
      Joined (find? first typeName) (find? second typeName) (find? both typeName))
    (hempty : both.isEmpty = (first.isEmpty && second.isEmpty))
    (hnames : ∀ r ∈ first, Lexer.isName r.target.toList)
    (hreads : (RenameCall.fields first).Rereads composite.schema) :
    (composite.renameFields first >>= Composite.renameFields second) =
      composite.renameFields both :=
  RenameCall.apply_bind_apply_of_agreeOn (.fields first) (.fields second) (.fields both) hreads
    (agreeOn_of_joined hboth hempty hnames)

end FieldRename

theorem isEmpty_append {β : Type} (first second : List β) :
    (first ++ second).isEmpty = (first.isEmpty && second.isEmpty) := by
  cases first <;> rfl

/-- **Independent renames can be made in any order, or at once.** In the end every name is what one
list makes of it, also if the list passes names on. -/
theorem independent_renames (composite : Composite α) :
    (∀ first second : List TypeRename,
      (TypeRename.names first).Disjoint (TypeRename.names second) →
      (RenameCall.types first).Rereads composite.schema →
      (RenameCall.types second).Rereads composite.schema →
        (composite.renameTypes first >>= Composite.renameTypes second) =
          composite.renameTypes (first ++ second) ∧
        (composite.renameTypes second >>= Composite.renameTypes first) =
          composite.renameTypes (first ++ second)) ∧
    (∀ first second : List FieldRename,
      (∀ r ∈ first ++ second, Lexer.isName r.target.toList) →
      (FieldRename.mentioned first).Disjoint (FieldRename.mentioned second) →
      (RenameCall.fields first).Rereads composite.schema →
      (RenameCall.fields second).Rereads composite.schema →
        (composite.renameFields first >>= Composite.renameFields second) =
          composite.renameFields (first ++ second) ∧
        (composite.renameFields second >>= Composite.renameFields first) =
          composite.renameFields (first ++ second)) ∧
    (∀ (renames : List TypeRename) (renamed : Composite α),
      composite.renameTypes renames = .ok renamed →
      (RenameCall.types renames).Rereads composite.schema →
        renamed.typeNames = composite.typeNames.map (TypeRename.apply renames)) ∧
    (∀ (renames : List FieldRename) (renamed : Composite α),
      (∀ r ∈ renames, Lexer.isName r.target.toList) →
      composite.renameFields renames = .ok renamed →
      (RenameCall.fields renames).Rereads composite.schema →
        renamed.namedFields =
          composite.namedFields.map (FieldRename.newNames renames).coordinate ∧
        renamed.fields.map (·.path) = composite.fields.map fun config =>
          FieldRename.applyToPath config.fieldName
            (FieldRename.apply renames config.typeName config.fieldName) config.path) := by
  refine ⟨?_, ?_, ?_, ?_⟩
  · -- Disjoint lists do not pass names on to each other, so each finds its own in the joined list.
    intro first second hdisjoint hfirst hsecond
    have hempty := isEmpty_append first second
    refine ⟨?_, ?_⟩
    · exact TypeRename.renameTypes_renameTypes (TypeRename.joined_append hdisjoint) hempty hfirst
    · exact TypeRename.renameTypes_renameTypes (TypeRename.joined_append_swap hdisjoint)
        (hempty.trans (Bool.and_comm _ _)) hsecond
  · intro first second hnames hdisjoint hfirst hsecond
    obtain ⟨hnames, hnames'⟩ := List.forall_mem_append.1 hnames
    have hempty := isEmpty_append first second
    refine ⟨?_, ?_⟩
    · exact FieldRename.renameFields_renameFields (FieldRename.joined_append hdisjoint) hempty
        hnames hfirst
    · exact FieldRename.renameFields_renameFields (FieldRename.joined_append_swap hdisjoint)
        (hempty.trans (Bool.and_comm _ _)) hnames' hsecond
  · intro renames renamed happly hreads
    exact typeNames_of_renameTypes happly hreads
  · intro renames renamed hnames happly hreads
    exact ⟨namedFields_of_renameFields hnames happly hreads, paths_of_renameFields happly⟩

/-- Codes whose key has two fields. -/
def codes : Composite RestPayload :=
  .make
    ("type Code @key(fields: \"id of\") \x7b\n  id: ID\n  of: Int\n\x7d\n")
    [⟨none, .rest, [⟨"Code", ["id", "of"]⟩], [], .blank, [], 0⟩]
    [{ FieldConfig.blank ⟨"Code", "id"⟩ with path := ["id"], requires := ["of"] }] [] []

/-- Two types are exchanged and a third one gets a new name. Both fields of the key get new names,
and the field set is printed once or twice. The composite names the type and its two fields in four
places: the schema, the key, the nodes and the configuration. -/
theorem independent_renames_codes :
    let types : List TypeRename := [⟨"Code", "ID"⟩, ⟨"ID", "Code"⟩]
    let others : List TypeRename := [⟨"Int", "Number"⟩]
    let fields : List FieldRename := [⟨"Code", "id", "key"⟩]
    let otherFields : List FieldRename := [⟨"Code", "of", "value"⟩]
    ((codes.renameTypes types >>= Composite.renameTypes others) =
        codes.renameTypes (types ++ others) ∧
      (codes.renameTypes others >>= Composite.renameTypes types) =
        codes.renameTypes (types ++ others)) ∧
    ((codes.renameFields fields >>= Composite.renameFields otherFields) =
        codes.renameFields (fields ++ otherFields) ∧
      (codes.renameFields otherFields >>= Composite.renameFields fields) =
        codes.renameFields (fields ++ otherFields)) ∧
    codes.typeNames = ["Code", "ID", "Int", "Code", "Code"] ∧
    (∃ renamed, codes.renameTypes types = .ok renamed ∧
      renamed.typeNames = ["ID", "Code", "Int", "ID", "ID"]) ∧
    codes.namedFields = (List.replicate 4 [⟨"Code", "id"⟩, ⟨"Code", "of"⟩]).flatten ∧
    ∃ renamed, codes.renameFields fields = .ok renamed ∧
      renamed.namedFields = (List.replicate 4 [⟨"Code", "key"⟩, ⟨"Code", "of"⟩]).flatten ∧
      renamed.fields.map (·.path) = [["key"]] := by
  intro types others fields otherFields
  obtain ⟨renamed, hrenamed, other, hother, hnames, hmentioned, htypes, hothers, hfields,
      hotherFields⟩ :
      ∃ renamed ∈ (codes.renameTypes types).toOption,
      ∃ other ∈ (codes.renameFields fields).toOption,
      (∀ name ∈ TypeRename.names types, name ∉ TypeRename.names others) ∧
      (∀ field ∈ FieldRename.mentioned fields, field ∉ FieldRename.mentioned otherFields) ∧
      (RenameCall.types types).Rereads codes.schema ∧
      (RenameCall.types others).Rereads codes.schema ∧
      (RenameCall.fields fields).Rereads codes.schema ∧
      (RenameCall.fields otherFields).Rereads codes.schema := by
    decide +kernel
  have htyped := mem_toOption.1 hrenamed
  have hfielded := mem_toOption.1 hother
  obtain ⟨hindependent, hindependentFields, hsubstitutes, hsubstitutesFields⟩ :=
    independent_renames codes
  obtain ⟨hnamed, hpaths⟩ := hsubstitutesFields fields other (by decide) hfielded hfields
  refine ⟨hindependent types others (fun name hname => hnames name hname) htypes hothers,
    hindependentFields fields otherFields (by decide)
      (fun field hfield => hmentioned field hfield) hfields hotherFields, ?_,
    ⟨renamed, htyped, (hsubstitutes types renamed htyped htypes).trans ?_⟩, ?_, other, hfielded,
    ?_, hpaths.trans ?_⟩
  · decide +kernel
  · decide +kernel
  · decide +kernel
  · rw [hnamed]
    decide +kernel
  · decide

end Supergraph
