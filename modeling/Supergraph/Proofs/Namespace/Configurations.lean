import Supergraph.Proofs.Consistency.Namespaces
import Supergraph.Proofs.RootTypes

/-!
# Configurations in a namespace

The configurations of a backend are moved into a namespace one by one, and moved root fields that
have none get one. If the names of fields stay apart, there is still at most one configuration per
field afterwards (`nodup_applyToFieldConfigs`), and the configured fields are the moved ones with
the moved root fields (`mem_applyToFieldConfigs_iff`).

Names stay apart in every namespace if no root field is skipped and the root types are found by
their conventional names, none of which looks as if a namespace stood in front of it.
-/

namespace Supergraph

namespace Namespace

variable {ns : Namespace} {document : Document}

/-! ## Names that stay apart -/

theorem fits_of_conventional {p : String} (hp : ns.name = some p)
    (hskipped : ns.skippedRootFields = [])
    (hnone : document.definitions.filterMap RootTypes.named? = []) :
    ns.Fits (.ofDocument document) where
  roots name hname := by
    obtain ⟨⟨operation, rfl⟩, -⟩ := (RootTypes.mem_names_iff hnone).1 hname
    exact not_isQualified hp (by cases operation <;> decide)
  skipped name hname := by
    rw [hskipped] at hname
    exact absurd hname List.not_mem_nil

theorem moves_coordinate_of_isEmpty (h : ns.isEmpty) (roots : RootTypes) :
    (ns.moves roots).coordinate = id := by
  funext field
  simp [Renaming.coordinate, moves, typeName, qualifiesType, fieldName, rootFieldName,
    qualifiesRootField, h]

/-- Different fields stay different. -/
theorem moves_coordinate_injective (hskipped : ns.skippedRootFields = [])
    (hnone : document.definitions.filterMap RootTypes.named? = []) :
    Function.Injective (ns.moves (.ofDocument document)).coordinate := by
  cases hname : ns.name with
  | none =>
    rw [moves_coordinate_of_isEmpty (by rw [isEmpty, hname]; rfl)]
    exact Function.injective_id
  | some p =>
    intro a b e
    have hapart := keepsApart_moves hname (fits_of_conventional hname hskipped hnone) [a, b]
    exact hapart.coordinate a (by simp) b (by simp) e

/-! ## Configured fields -/

theorem nodup_addRootField {configs : List FieldConfig} (field : Coordinate)
    (h : (configs.map (·.coordinate)).Nodup) :
    ((ns.addRootField configs field).map (·.coordinate)).Nodup := by
  unfold addRootField
  simp only []
  split_ifs with hadd
  · obtain ⟨-, hnew⟩ := hadd
    rw [List.map_append, List.map_singleton]
    refine List.nodup_append.2 ⟨h, List.nodup_singleton _, fun x hx y hy => ?_⟩
    obtain rfl := List.mem_singleton.1 hy
    obtain ⟨config, hconfig, rfl⟩ := List.mem_map.1 hx
    have hnone := List.any_eq_false.1 (Bool.not_eq_true' _ ▸ hnew) config hconfig
    exact fun e => hnone (decide_eq_true e)
  · exact h

theorem coordinates_map_applyToFieldConfig (roots : RootTypes) (configs : List FieldConfig) :
    (configs.map (ns.applyToFieldConfig roots)).map (·.coordinate) =
      (configs.map (·.coordinate)).map (ns.moves roots).coordinate := by
  rw [List.map_map, List.map_map]
  exact List.map_congr_left fun config _ => coordinate_applyToFieldConfig ns roots config

/-- One configuration per field stays one per field. -/
theorem nodup_applyToFieldConfigs {configs : List FieldConfig}
    (hapart : Function.Injective (ns.moves (.ofDocument document)).coordinate)
    (h : (configs.map (·.coordinate)).Nodup) :
    ((ns.applyToFieldConfigs configs document).map (·.coordinate)).Nodup := by
  have hmoved : ((configs.map (ns.applyToFieldConfig (.ofDocument document))).map
      (·.coordinate)).Nodup := by
    rw [coordinates_map_applyToFieldConfig]
    exact h.map hapart
  rw [applyToFieldConfigs]
  induction rootFields (.ofDocument document) document using List.reverseRecOn with
  | nil => exact hmoved
  | append_singleton fields field ih =>
    rw [List.foldl_append]
    exact nodup_addRootField field ih

/-- The configured fields are the moved ones with the moved root fields. -/
theorem mem_applyToFieldConfigs_iff {configs : List FieldConfig} {x : Coordinate} :
    x ∈ (ns.applyToFieldConfigs configs document).map (·.coordinate) ↔
      ∃ field, (ns.moves (.ofDocument document)).coordinate field = x ∧
        (field ∈ configs.map (·.coordinate) ∨
          field ∈ rootFields (.ofDocument document) document ∧
            ns.qualifiesRootField field.fieldName) := by
  obtain ⟨rest, hfold, hrest, hall⟩ := ns.foldl_addRootField
    (rootFields (.ofDocument document) document)
    (configs.map (ns.applyToFieldConfig (.ofDocument document)))
  rw [applyToFieldConfigs, hfold]
  constructor
  · rw [List.map_append, List.mem_append, coordinates_map_applyToFieldConfig]
    rintro (h | h)
    · obtain ⟨field, hfield, rfl⟩ := List.mem_map.1 h
      exact ⟨field, rfl, .inl hfield⟩
    · obtain ⟨config, hconfig, rfl⟩ := List.mem_map.1 h
      obtain ⟨field, hfield, hq, rfl⟩ := hrest config hconfig
      exact ⟨field, coordinate_rootField hfield hq, .inr ⟨hfield, hq⟩⟩
  · rintro ⟨field, rfl, h | ⟨hfield, hq⟩⟩
    · rw [List.map_append, coordinates_map_applyToFieldConfig]
      exact List.mem_append_left _ (List.mem_map_of_mem h)
    · obtain ⟨config, hconfig, hcoordinate⟩ := hall field hfield hq
      rw [coordinate_rootField hfield hq, ← hcoordinate]
      exact List.mem_map_of_mem hconfig

end Namespace

end Supergraph
