import Mathlib.Data.Set.Function
import Supergraph.Proofs.DocumentMaps
import Supergraph.Proofs.Renaming
import Supergraph.Rename

/-!
# Documents with renamed types

Renaming types reaches every place where a document names one. The root types of the renamed
document are the renamed root types (`names_mapTypeNames`): where a `schema` definition names them,
they are renamed there, and where they are found by their conventional names, these names have to be
left alone (`SparesConvention`).
-/

namespace Supergraph

/-- All fields that a document speaks of are fields of types that it names. -/
theorem Document.mem_typeNames_of_mem_namedFields {document : Document} {field : Coordinate}
    (h : field ∈ document.namedFields) : field.typeName ∈ document.typeNames := by
  have hcontainer : ∃ container ∈ document.containers, container.name = field.typeName := by
    rcases List.mem_append.1 h with h | h
    · obtain ⟨o, ho, rfl⟩ := List.mem_map.1 h
      exact ⟨o.container, (mem_occurrences.1 ho).1, rfl⟩
    · obtain ⟨container, hcontainer, h⟩ := List.mem_flatMap.1 h
      obtain ⟨name, -, rfl⟩ := List.mem_map.1 h
      exact ⟨container, hcontainer, rfl⟩
  obtain ⟨container, hcontainer, htype⟩ := hcontainer
  exact htype ▸ mem_typeNames_of_declared (declared_of_mem_containers hcontainer)

namespace TypeRename

variable {renames : List TypeRename} {document : Document}

/-- What the renames make of the names of types and fields. -/
def newNames (renames : List TypeRename) : Renaming where
  typeName := apply renames
  fieldName _ name := name

theorem applyToNodes_eq (renames : List TypeRename) :
    applyToNodes renames = (List.map (newNames renames).node ·) := by
  funext nodes
  refine List.map_congr_left fun node _ => ?_
  rw [Renaming.node]
  exact congrArg (TypeFields.mk _) (List.map_id node.fieldNames).symm

theorem applyToFieldConfigs_eq (renames : List TypeRename) :
    applyToFieldConfigs renames = (List.map (newNames renames).config ·) := by
  funext configs
  refine List.map_congr_left fun config _ => ?_
  rw [Renaming.config]
  exact congrArg (FieldConfig.mk _ _ _ _ _ · _) (List.map_id config.requires).symm

/-- A renamed name is the target of a rename, and has been its source. -/
theorem apply_cases (renames : List TypeRename) (name : String) :
    apply renames name = name ∨
      ∃ r ∈ renames, r.source = name ∧ apply renames name = r.target := by
  cases h : find? renames name with
  | none => exact .inl (by rw [apply, h, Option.getD_none])
  | some target =>
    obtain ⟨r, hr, rfl⟩ := Option.map_eq_some_iff.1 h
    have hsource := List.find?_some hr
    exact .inr ⟨r, List.mem_of_find?_eq_some hr, of_decide_eq_true hsource,
      by rw [apply, h, Option.getD_some]⟩

/-- The renamed text of a schema that can be read. -/
theorem applyToSchema_of_parse (renames : List TypeRename) {schema : String}
    (hread : parseSchema schema = .ok document) :
    applyToSchema renames schema =
      .ok (if renames.isEmpty then schema else (document.mapTypeNames (apply renames)).print) := by
  rw [applyToSchema, hread]
  split_ifs <;> rfl

/-! ## Root types -/

/-- The renames do not touch the names by which root types are found without a `schema` definition.
-/
def SparesConvention (renames : List TypeRename) : Prop :=
  ∀ r ∈ renames, ∀ name ∈ ["Query", "Mutation", "Subscription"], r.source ≠ name ∧ r.target ≠ name

instance : DecidablePred SparesConvention := fun _ => inferInstanceAs (Decidable (∀ _ ∈ _, _))

theorem SparesConvention.apply_eq_iff (h : SparesConvention renames) {root : String}
    (hroot : root ∈ ["Query", "Mutation", "Subscription"]) (name : String) :
    apply renames name = root ↔ name = root := by
  rcases apply_cases renames name with hsame | ⟨r, hr, hsource, htarget⟩
  · rw [hsame]
  · obtain ⟨hs, ht⟩ := h r hr root hroot
    rw [htarget, ← hsource]
    exact iff_of_false ht hs

/-- The root types of the renamed document are the renamed root types. -/
theorem names_mapTypeNames
    (hroots : (∃ directives roots, Definition.schema directives roots ∈ document.definitions) ∨
      SparesConvention renames) :
    (RootTypes.ofDocument (document.mapTypeNames (apply renames))).names =
      (RootTypes.ofDocument document).names.map (apply renames) := by
  have hoperations : RootTypes.operations (document.mapTypeNames (apply renames)) =
      (RootTypes.operations document).mapTypeNames (apply renames) := by
    refine RootTypes.operations_mapTypeNames fun hnone root hroot name _ => ?_
    rcases hroots with ⟨directives, roots, hschema⟩ | hspares
    · have hnamed := List.filterMap_eq_nil_iff.1 hnone _ hschema
      cases hnamed
    · exact hspares.apply_eq_iff hroot name
  simp only [RootTypes.ofDocument, RootTypes.names, hoperations, RootOperations.mapTypeNames,
    List.map_append, Option.toList_map]

end TypeRename

end Supergraph
