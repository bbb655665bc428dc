import Supergraph.Proofs.Namespace.RootFields
import Supergraph.Proofs.Renaming

/-!
# Namespaces and classifications

A classification can be carried over into a namespace in two ways: the document is moved and then
classified, or it is classified and the records are moved.

**Theorem (`classification_applyToDocument`).** Both ways agree, provided that no root type and no
skipped root field looks as if the namespace stood in front of it and that root types have no keys.
They differ in the paths only: the configurations of moved root fields point back at their names in
the backend, and there is one for every moved root field.

Moving a document is a renaming that keeps everything apart, so `classify_renamed` applies. A root
type with a key would break the agreement, because the fields of a key keep their names while root
fields do not.
-/

namespace Supergraph

def FieldConfig.withoutPath (config : FieldConfig) : FieldConfig := { config with path := [] }

namespace Namespace

/-- The new names of types and fields. -/
def moves (ns : Namespace) (roots : RootTypes) : Renaming where
  typeName := ns.typeName roots
  fieldName := ns.fieldName roots

/-- An occurrence in the composed schema. -/
def occurrence (ns : Namespace) (roots : RootTypes) (o : Occurrence) : Occurrence :=
  let moveField := fun typeName field =>
    { field with name := ns.fieldName roots typeName field.name }
  { container := (o.container.mapTypeNames (ns.typeName roots)).mapFields moveField
    field := moveField (ns.typeName roots o.container.name)
      (o.field.mapTypeNames (ns.typeName roots)) }

theorem occurrences_applyToDocument (ns : Namespace) (document : Document) :
    (ns.applyToDocument document).occurrences =
      document.occurrences.map (ns.occurrence (.ofDocument document)) := by
  rw [Document.occurrences, containers_applyToDocument, List.flatMap_map, Document.occurrences,
    List.map_flatMap]
  refine List.flatMap_congr fun container _ => ?_
  simp [occurrence, Container.mapFields, Container.mapTypeNames, Function.comp_def]

theorem keyTexts_applyToDocument (ns : Namespace) (document : Document) :
    (ns.applyToDocument document).keyTexts = document.keyTexts := by
  rw [Document.keyTexts, containers_applyToDocument, List.flatMap_map]
  rfl

theorem fieldName_of_not_mem {ns : Namespace} {roots : RootTypes} {typeName : String}
    (h : typeName ∉ roots.names) : ns.fieldName roots typeName = id := by
  funext name
  rw [fieldName, if_neg (mt isRoot_iff.1 h), id]

section Moves

variable {ns : Namespace} {p : String} (hp : ns.name = some p) {document : Document}
  (hfits : ns.Fits (.ofDocument document))

include hp hfits

/-- The fields of a type are moved the same way under its new name. -/
theorem fieldName_typeName (typeName : String) :
    ns.fieldName (.ofDocument document) (ns.typeName (.ofDocument document) typeName) =
      ns.fieldName (.ofDocument document) typeName := by
  by_cases h : typeName ∈ (RootTypes.ofDocument document).names
  · rw [typeName_of_mem h]
  · rw [fieldName_of_not_mem h, fieldName_of_not_mem (mt (typeName_mem_names hp hfits).1 h)]

/-- Moving a document into a namespace renames it. -/
theorem renames_applyToDocument
    (hkeys : ∀ container ∈ document.containers,
      container.name ∈ (RootTypes.ofDocument document).names → ¬ container.isEntity) :
    document.Renames (ns.moves (.ofDocument document)) (ns.applyToDocument document) where
  occurrences := by
    rw [occurrences_applyToDocument, List.forall₂_map_right_iff, List.forall₂_same]
    intro o ho
    have hfield := fieldName_typeName hp hfits o.container.name
    have hkeyNames : o.container.keyNames =
        o.container.keyNames.map (ns.fieldName (.ofDocument document) o.container.name) := by
      -- The texts of keys are not moved, so a root type must not have any.
      by_cases hroot : o.container.name ∈ (RootTypes.ofDocument document).names
      · have hentity := hkeys o.container (Document.mem_occurrences.1 ho).1 hroot
        rw [Container.keyNames_of_not_isEntity hentity, List.map_nil]
      · rw [fieldName_of_not_mem hroot, List.map_id]
    exact {
      coordinate := congrArg (Coordinate.mk _) (congrFun hfield o.field.name)
      isRoot := by
        rw [names_applyToDocument]
        exact typeName_mem_names hp hfits
      isEntity := rfl
      extendsType := rfl
      keyNames := hkeyNames
      isExternal := Field.isExternal_mapTypeNames _ o.field
      argumentNames := by
        simp [occurrence, Occurrence.argumentNames, Field.mapTypeNames, InputField.mapTypeNames,
          Function.comp_def] }
  keysRead h := by rwa [keyTexts_applyToDocument]

theorem keepsApart_moves (fields : List Coordinate) :
    (ns.moves (.ofDocument document)).KeepsApart fields where
  typeName _ _ _ _ e := typeName_injective hp hfits e
  fieldName x _ _ _ _ e := fieldName_injective hp hfits x.typeName e

end Moves

/-! ## Configurations -/

section Configurations

variable {document : Document}
  (hkeys : ∀ container ∈ document.containers,
    container.name ∈ (RootTypes.ofDocument document).names → ¬ container.isEntity)

include hkeys

theorem requires_eq_nil (retypings : List ArgumentRetyping) {field : Coordinate}
    (hroot : field.typeName ∈ (RootTypes.ofDocument document).names) :
    (document.fieldConfig retypings field).requires = [] := by
  have hnone : (document.occurrencesOf field).flatMap (·.required) = [] := by
    refine List.flatMap_eq_nil_iff.2 fun o ho => ?_
    obtain ⟨ho, hcoordinate⟩ := List.mem_filter.1 ho
    have htype : o.container.name = field.typeName :=
      congrArg Coordinate.typeName (of_decide_eq_true hcoordinate)
    have hentity := hkeys o.container (Document.mem_occurrences.1 ho).1 (htype ▸ hroot)
    exact if_neg fun hrequires => hentity hrequires.1
  rw [Document.fieldConfig, hnone, List.eraseDups_nil]

end Configurations

/-- Up to its path, the configuration of a moved field is the moved configuration. Those of root
fields must not require fields, because these would be moved like root fields. -/
theorem withoutPath_applyToFieldConfig (ns : Namespace) (roots : RootTypes) {config : FieldConfig}
    (hpath : config.path = []) (hrequires : config.typeName ∈ roots.names → config.requires = []) :
    (ns.applyToFieldConfig roots config).withoutPath = (ns.moves roots).config config := by
  obtain ⟨typeName, fieldName, disableDefaultMapping, path, arguments, requires, unescapeJson⟩ :=
    config
  obtain rfl : path = [] := hpath
  by_cases hroot : typeName ∈ roots.names
  · obtain rfl : requires = [] := hrequires hroot
    have hname : ns.fieldName roots typeName fieldName = ns.rootFieldName fieldName :=
      if_pos (isRoot_iff.2 hroot)
    simp only [Renaming.config, moves, typeName_of_mem hroot, hname, List.map_nil]
    rw [applyToFieldConfig, rootFieldName, if_pos (isRoot_iff.2 hroot)]
    split_ifs <;> rfl
  · simp only [Renaming.config, moves, fieldName_of_not_mem hroot, List.map_id]
    rw [applyToFieldConfig, if_neg (mt isRoot_iff.1 hroot)]
    rfl

/-- **Classification commutes with namespaces.** The same fields are root and child nodes, in the
same order, whether a document is moved or what was derived from it. -/
theorem classification_applyToDocument (document : Document) (name : String) (hname : name ≠ "")
    (skipped : List String) (hfits : (ofName (some name) skipped).Fits (.ofDocument document))
    (hkeys : ∀ container ∈ document.containers,
      container.name ∈ (RootTypes.ofDocument document).names → ¬ container.isEntity)
    (c : Classification) (hc : classify document none [] = .ok c) :
    let ns := ofName (some name) skipped
    RootTypes.operations (ns.applyToDocument document) = RootTypes.operations document ∧
      ∃ moved lead rest,
        classify (ns.applyToDocument document) none [] = .ok moved ∧
        moved.rootNodes = ns.applyToNodes c.rootNodes document ∧
        moved.childNodes = ns.applyToNodes c.childNodes document ∧
        ns.applyToFieldConfigs c.fields document = lead ++ rest ∧
        moved.fields = lead.map (·.withoutPath) ∧
        ∀ config ∈ rest, ∃ field ∈ rootFields (.ofDocument document) document,
          config = ns.rootFieldConfig field := by
  intro ns
  have hp : ns.name = some name := name_ofName hname skipped
  obtain ⟨rest, hfold, hrest, -⟩ := ns.foldl_addRootField
    (rootFields (.ofDocument document) document)
    (c.fields.map (ns.applyToFieldConfig (.ofDocument document)))
  have hmoved := classify_renamed (renames_applyToDocument hp hfits hkeys)
    (keepsApart_moves hp hfits _) hc
  refine ⟨ns.operations_moved document, _, _, rest, hmoved, rfl, rfl, hfold, ?_, ?_⟩
  · obtain ⟨-, rfl⟩ := classify_eq_ok.1 hc
    rw [List.map_map]
    refine List.map_congr_left fun config hconfig => ?_
    obtain ⟨field, -, rfl⟩ := List.mem_map.1 hconfig
    exact (withoutPath_applyToFieldConfig ns _ rfl (requires_eq_nil hkeys [])).symm
  · intro config hconfig
    obtain ⟨field, hfield, -, h⟩ := hrest config hconfig
    exact ⟨field, hfield, h⟩

/-- The composed schema of a shop has the users' root field and type under the shop's names, but
keeps the name of the total. -/
theorem classification_applyToDocument_users :
    ∃ moved,
      classify ((ofName (some "shop") ["total"]).applyToDocument users) none [] = .ok moved ∧
      moved.rootNodes = [⟨"Query", ["shop_user", "total"]⟩, ⟨"shop_User", ["id", "name"]⟩] ∧
      moved.childNodes = [⟨"shop_User", ["id", "name"]⟩] := by
  have hkeys : ∀ container ∈ users.containers,
      container.name ∈ (RootTypes.ofDocument users).names → ¬ container.isEntity := by decide
  obtain ⟨-, moved, -, -, hmoved, hrootNodes, hchildNodes, -⟩ :=
    classification_applyToDocument users "shop" (by decide) ["total"] fits_users hkeys _
      classify_users
  refine ⟨moved, hmoved, hrootNodes.trans ?_, hchildNodes.trans ?_⟩
  · decide +kernel
  · decide +kernel

end Namespace

end Supergraph
