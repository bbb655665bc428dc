import Mathlib.Data.Set.Function
import Supergraph.Proofs.Rename.FieldSets
import Supergraph.Proofs.Rename.Fields
import Supergraph.Proofs.Rename.Types

/-!
# Renames and classifications

What is derived from a document can be renamed in two ways: the document is renamed and then
classified, or it is classified and the records are renamed.

**Theorems (`classify_mapTypeNames`, `classify_of_applyUnlessEmpty`).** Both ways agree, for types
and for fields, if the renames keep apart the names that a classification compares: the types of the
document, or the fields of each type together with the names in its keys. All renames of a list
count at once, so names may be swapped.

Each case is a renaming in the sense of `classify_renamed`. Renaming types touches no key. Renaming
fields prints the keys anew, which is where the names have to be names of the language: a key that
was printed is read again as the renamed key.
-/

namespace Supergraph

/-! ## Types -/

namespace TypeRename

variable {renames : List TypeRename} {document : Document}

/-- Renaming the types of a document renames its occurrences. -/
theorem renames_mapTypeNames
    (hinj : Set.InjOn (apply renames) {name | name ∈ document.typeNames})
    (hroots : (∃ directives roots, Definition.schema directives roots ∈ document.definitions) ∨
      SparesConvention renames) :
    document.Renames (newNames renames) (document.mapTypeNames (apply renames)) where
  occurrences := by
    rw [Document.occurrences_mapTypeNames, List.forall₂_map_right_iff, List.forall₂_same]
    intro o ho
    have hname : o.container.name ∈ document.typeNames :=
      Document.mem_typeNames_of_declared
        (Document.declared_of_mem_containers (Document.mem_occurrences.1 ho).1)
    -- A type with the new name of a root type would have to be that root type.
    have hisRoot : apply renames o.container.name ∈
          (RootTypes.ofDocument document).names.map (apply renames) ↔
        o.container.name ∈ (RootTypes.ofDocument document).names := by
      refine ⟨fun h => ?_, List.mem_map_of_mem⟩
      obtain ⟨root, hroot, e⟩ := List.mem_map.1 h
      exact hinj (RootTypes.mem_typeNames_of_mem_names hroot) hname e ▸ hroot
    exact {
      coordinate := rfl
      isRoot := by rwa [names_mapTypeNames hroots]
      isEntity := rfl
      extendsType := rfl
      keyNames := (List.map_id o.container.keyNames).symm
      isExternal := Field.isExternal_mapTypeNames _ o.field
      argumentNames := by
        simp [Occurrence.argumentNames, Field.mapTypeNames, InputField.mapTypeNames,
          Function.comp_def] }
  keysRead h := by rwa [Document.keyTexts_mapTypeNames]

theorem keepsApart_newNames
    (hinj : Set.InjOn (apply renames) {name | name ∈ document.typeNames}) :
    (newNames renames).KeepsApart document.namedFields where
  typeName _ hx _ hy e := hinj (Document.mem_typeNames_of_mem_namedFields hx)
    (Document.mem_typeNames_of_mem_namedFields hy) e
  fieldName _ _ _ _ _ e := e

/-- **Classification commutes with type renames.** Without renames a schema text stays as it is;
otherwise it is the renamed document that is printed. -/
theorem classify_mapTypeNames (renames : List TypeRename) (document : Document)
    (hinj : Set.InjOn (apply renames) {name | name ∈ document.typeNames})
    (hroots : (∃ directives roots, Definition.schema directives roots ∈ document.definitions) ∨
      SparesConvention renames)
    (c : Classification) (hc : classify document none [] = .ok c) :
    let renamed := document.mapTypeNames (apply renames)
    classify renamed none [] = .ok {
        rootNodes := applyToNodes renames c.rootNodes
        childNodes := applyToNodes renames c.childNodes
        fields := applyToFieldConfigs renames c.fields
        types := [] } ∧
      ∀ schema, parseSchema schema = .ok document →
        applyToSchema renames schema = .ok (if renames.isEmpty then schema else renamed.print) := by
  intro renamed
  refine ⟨?_, fun schema hread => applyToSchema_of_parse renames hread⟩
  rw [applyToNodes_eq, applyToFieldConfigs_eq]
  exact classify_renamed (renames_mapTypeNames hinj hroots) (keepsApart_newNames hinj) hc

/-- A schema whose root type is called like a plain one conventionally is. -/
def library : Document := ⟨[
  .schema [] ⟨some "Book", none, none⟩,
  .type none ⟨"Book", [], .container .object [] [
    ⟨none, "book", [⟨none, "id", .named "ID", none, []⟩], .named "Query", []⟩]⟩,
  .type none ⟨"Query", [⟨"key", [("fields", .string "id")]⟩], .container .object [] [
    ⟨none, "id", [], .named "ID", []⟩,
    ⟨none, "next", [], .nonNull (.named "Query"), []⟩]⟩]⟩

/-- Swapping the names of the two types makes the conventional schema of it. -/
theorem classify_mapTypeNames_library :
    let renames : List TypeRename := [⟨"Book", "Query"⟩, ⟨"Query", "Book"⟩]
    classify (library.mapTypeNames (apply renames)) none [] = .ok {
      rootNodes := [⟨"Query", ["book"]⟩, ⟨"Book", ["id", "next"]⟩]
      childNodes := [⟨"Book", ["id", "next"]⟩]
      fields := [
        { FieldConfig.blank ⟨"Query", "book"⟩ with arguments := [.fieldArgument "id"] },
        { FieldConfig.blank ⟨"Book", "next"⟩ with requires := ["id"] }]
      types := [] } := by
  intro renames
  have hinj : ∀ x ∈ library.typeNames, ∀ y ∈ library.typeNames,
      apply renames x = apply renames y → x = y := by decide +kernel
  obtain ⟨h, -⟩ := classify_mapTypeNames renames library (fun x hx y hy => hinj x hx y hy)
    (.inl ⟨_, _, List.mem_cons_self⟩) (library.classification [])
    (classify_eq_ok.2 ⟨by decide +kernel, rfl⟩)
  refine h.trans (congrArg Except.ok ?_)
  decide +kernel

end TypeRename

/-! ## Fields -/

namespace FieldRename

variable {renames : List FieldRename} {document renamed : Document}

/-- Renaming the fields of a document renames its occurrences. -/
theorem renames_of_applyToDocument (hnames : ∀ r ∈ renames, Lexer.isName r.target.toList)
    (h : applyToDocument renames document = .ok renamed) :
    document.Renames (newNames renames) renamed where
  occurrences := by
    refine (forall₂_occurrences h).imp fun o renamed hr => ?_
    exact {
      coordinate := hr.coordinate
      isRoot := by rw [ofDocument_renamed h, hr.typeName]
      isEntity := hr.container.carries "key"
      extendsType := by
        rw [Container.extendsType, Container.extendsType, hr.container.isExtension,
          hr.container.carries]
      keyNames := keyNames_renamed hnames hr.container.directives
      isExternal := hr.isExternal
      argumentNames := by rw [Occurrence.argumentNames, Occurrence.argumentNames, hr.arguments] }
  keysRead _ := by
    have hread : ∀ container ∈ renamed.containers, ∀ text ∈ container.keyTexts,
        FieldSet.errorIn? text = none :=
      forall_mem_of_forall₂ (forall₂_containers h) fun _ _ hc =>
        errorIn?_renamed hnames hc.directives
    rw [List.findSome?_eq_none_iff]
    intro text htext
    obtain ⟨container, hcontainer, htext⟩ := List.mem_flatMap.1 htext
    exact hread container hcontainer text htext

theorem renames_nil (document : Document) : document.Renames (newNames []) document where
  occurrences := List.forall₂_same.2 fun o _ => {
    coordinate := rfl
    isRoot := Iff.rfl
    isEntity := rfl
    extendsType := rfl
    keyNames := (List.map_id o.container.keyNames).symm
    isExternal := rfl
    argumentNames := rfl }
  keysRead h := h

theorem renames_of_applyUnlessEmpty (hnames : ∀ r ∈ renames, Lexer.isName r.target.toList)
    (h : applyUnlessEmpty renames document = .ok renamed) :
    document.Renames (newNames renames) renamed := by
  rcases applyUnlessEmpty_cases h with ⟨rfl, rfl⟩ | h
  · exact renames_nil _
  · exact renames_of_applyToDocument hnames h

theorem keepsApart_newNames (hinj : ∀ typeName,
      Set.InjOn (apply renames typeName) {name | ⟨typeName, name⟩ ∈ document.namedFields}) :
    (newNames renames).KeepsApart document.namedFields where
  typeName _ _ _ _ e := e
  fieldName x hx y hy htype e := by
    refine hinj x.typeName hx ?_ e
    show Coordinate.mk x.typeName y.fieldName ∈ document.namedFields
    rwa [htype]

/-- Without paths and source paths a configuration names fields of its type only. -/
theorem applyToFieldConfig_eq (renames : List FieldRename) {config : FieldConfig}
    (hpath : config.path = []) (harguments : ∀ a ∈ config.arguments, a.source = .fieldArgument) :
    applyToFieldConfig renames config = (newNames renames).config config := by
  obtain ⟨typeName, fieldName, disableDefaultMapping, path, arguments, requires, unescapeJson⟩ :=
    config
  obtain rfl : path = [] := hpath
  have hkept : arguments.map (applyToArgumentConfig renames typeName) = arguments :=
    (List.map_congr_left (g := id) fun a ha => by
      rw [applyToArgumentConfig, harguments a ha, id_eq]).trans (List.map_id arguments)
  have hname : (newNames renames).fieldName typeName fieldName =
      (find? renames typeName fieldName).getD fieldName := rfl
  rw [applyToFieldConfig, Renaming.config, hkept, hname]
  cases find? renames typeName fieldName <;> rfl

theorem applyToFieldConfigs_classification (renames : List FieldRename) (document : Document) :
    applyToFieldConfigs renames (document.classification []).fields =
      (document.classification []).fields.map (newNames renames).config := by
  refine List.map_congr_left fun config hconfig => ?_
  obtain ⟨field, -, rfl⟩ := List.mem_map.1 hconfig
  refine applyToFieldConfig_eq renames rfl fun a ha => ?_
  obtain ⟨name, -, rfl⟩ := List.mem_map.1 ha
  rfl

/-- **Classification commutes with field renames.** Without renames a schema text stays as it is;
otherwise it is the renamed document that is printed. -/
theorem classify_of_applyUnlessEmpty (renames : List FieldRename) (document renamed : Document)
    (hnames : ∀ r ∈ renames, Lexer.isName r.target.toList)
    (hinj : ∀ typeName,
      Set.InjOn (apply renames typeName) {name | ⟨typeName, name⟩ ∈ document.namedFields})
    (happly : applyUnlessEmpty renames document = .ok renamed)
    (c : Classification) (hc : classify document none [] = .ok c) :
    classify renamed none [] = .ok {
        rootNodes := applyToNodes renames c.rootNodes
        childNodes := applyToNodes renames c.childNodes
        fields := applyToFieldConfigs renames c.fields
        types := [] } ∧
      ∀ schema, parseSchema schema = .ok document →
        applyToSchema renames schema = .ok (if renames.isEmpty then schema else renamed.print) := by
  refine ⟨?_, fun schema hread => applyToSchema_of_applyUnlessEmpty hread happly⟩
  have hrenamed := classify_renamed (renames_of_applyUnlessEmpty hnames happly)
    (keepsApart_newNames hinj) hc
  obtain ⟨-, rfl⟩ := classify_eq_ok.1 hc
  rw [Option.getD_none] at hrenamed ⊢
  rw [hrenamed, applyToFieldConfigs_classification]
  rfl

/-- An entity whose key selects a field of another entity, and one that is extended. -/
def members : Document := ⟨[
  .type none ⟨"Query", [], .container .object [] [
    ⟨none, "member", [⟨none, "id", .named "ID", none, []⟩], .named "Member", []⟩]⟩,
  .type none ⟨"Member", [⟨"key", [("fields", .string "id org \x7b id \x7d")]⟩],
    .container .object [] [
    ⟨none, "id", [], .named "ID", []⟩,
    ⟨none, "org", [], .named "Org", []⟩,
    ⟨none, "name", [⟨none, "short", .named "Boolean", none, []⟩], .named "String", []⟩]⟩,
  .extension ⟨"Org", [⟨"key", [("fields", .string "id")]⟩], .container .object [] [
    ⟨none, "id", [], .named "ID", [⟨"external", []⟩]⟩,
    ⟨none, "size", [], .named "Int", []⟩]⟩]⟩

/-- Swapping the names of two fields in a key swaps them at its top level only. -/
theorem classify_of_applyUnlessEmpty_members :
    let renames : List FieldRename :=
      [⟨"Member", "id", "org"⟩, ⟨"Member", "org", "id"⟩, ⟨"Org", "size", "count"⟩]
    ∃ renamed, applyUnlessEmpty renames members = .ok renamed ∧
      renamed.keyTexts = ["org id \x7b id \x7d", "id"] ∧
      classify renamed none [] = .ok {
        rootNodes := [⟨"Query", ["member"]⟩, ⟨"Member", ["org", "id", "name"]⟩, ⟨"Org", ["count"]⟩]
        childNodes := [⟨"Member", ["org", "id", "name"]⟩, ⟨"Org", ["id"]⟩]
        fields := [
          { FieldConfig.blank ⟨"Query", "member"⟩ with arguments := [.fieldArgument "id"] },
          { FieldConfig.blank ⟨"Member", "name"⟩ with
            arguments := [.fieldArgument "short"]
            requires := ["org", "id"] },
          { FieldConfig.blank ⟨"Org", "count"⟩ with requires := ["id"] }]
        types := [] } := by
  intro renames
  have hsucceeds : (applyUnlessEmpty renames members).toOption.isSome := by decide +kernel
  obtain ⟨renamed, hrenamed⟩ := Option.isSome_iff_exists.1 hsucceeds
  have hinj : ∀ x ∈ members.namedFields, ∀ y ∈ members.namedFields, x.typeName = y.typeName →
      apply renames x.typeName x.fieldName = apply renames x.typeName y.fieldName → x = y := by
    decide +kernel
  obtain ⟨h, -⟩ := classify_of_applyUnlessEmpty renames members renamed (by decide +kernel)
    (fun _ _ hx _ hy e => congrArg Coordinate.fieldName (hinj _ hx _ hy rfl e))
    (mem_toOption.1 hrenamed) (members.classification [])
    (classify_eq_ok.2 ⟨by decide +kernel, rfl⟩)
  refine ⟨renamed, mem_toOption.1 hrenamed, ?_, h.trans (congrArg Except.ok ?_)⟩
  · have hkeys : (applyUnlessEmpty renames members).toOption.map (·.keyTexts) =
        some ["org id \x7b id \x7d", "id"] := by decide +kernel
    rw [hrenamed] at hkeys
    exact Option.some.inj hkeys
  · decide +kernel

end FieldRename

end Supergraph
