import Supergraph.Proofs.Classify

/-!
# Merged field configurations

A list of configurations is merged into another one entry by entry. Merged from nothing, a list
keeps one configuration per field, in the order of their first occurrence
(`coordinates_merge_nil`), and merging several lists one after the other is the same as merging all
of them put together.

**Theorem (`merge_nil_of_isWellFormed`).** A well-formed list is merged into nothing as it is. A
classification leaves such a list (`isWellFormed_of_classify`), so the configurations of a backend
are the same whether they are merged or not.
-/

namespace Supergraph

namespace FieldConfig

variable {config : FieldConfig} {configs : List FieldConfig}

/-! ## Merging from nothing -/

theorem merge_append (configs first second : List FieldConfig) :
    merge configs (first ++ second) = merge (merge configs first) second :=
  List.foldl_append

theorem merge_nil_eq (configs : List FieldConfig) :
    merge [] configs = (configs.map (·.coordinate)).eraseDups.map
      (entryOf blank absorb coordinate configs) := by
  simp only [merge, update_eq_upsert]
  exact foldl_upsert (fun _ => rfl) (fun other config h => (coordinate_absorb other config).trans h)
    configs

/-- There is one configuration for every field that has any. -/
theorem coordinates_merge_nil (configs : List FieldConfig) :
    (merge [] configs).map (·.coordinate) = (configs.map (·.coordinate)).eraseDups := by
  have hkey : ∀ field, (entryOf blank absorb coordinate configs field).coordinate = field :=
    key_entryOf (fun _ => rfl) (fun other config h => (coordinate_absorb other config).trans h)
      configs
  rw [merge_nil_eq, List.map_map]
  exact (List.map_congr_left fun field _ => hkey field).trans (List.map_id _)

/-! ## Well-formed lists -/

/-- Whether there is one configuration per argument name and no repeated required field. -/
structure IsWellFormed (config : FieldConfig) : Prop where
  arguments : (config.arguments.map (·.name)).Nodup
  requires : config.requires.Nodup

theorem foldl_upsertArgument_of_nodup (config : FieldConfig) (more : List ArgumentConfig)
    (h : ((config.arguments ++ more).map (·.name)).Nodup) :
    more.foldl (fun config argument => config.upsertArgument argument) config =
      { config with arguments := config.arguments ++ more } := by
  induction more generalizing config with
  | nil => rw [List.foldl_nil, List.append_nil]
  | cons argument rest ih =>
    have hnew : argument.name ∉ config.arguments.map (·.name) := by
      rw [List.map_append, List.map_cons] at h
      exact fun hmem => (List.nodup_append.1 h).2.2 _ hmem _ List.mem_cons_self rfl
    have hupsert : config.upsertArgument argument =
        { config with arguments := config.arguments ++ [argument] } := by
      rw [upsertArgument, ArgumentConfig.upsert_eq_upsert fun _ => argument, upsert_of_not_mem hnew]
    rw [List.append_cons] at h
    rw [List.foldl_cons, hupsert, ih _ h, ← List.append_cons]

/-- A blank configuration that absorbs a well-formed one becomes the same. -/
theorem absorb_blank (h : config.IsWellFormed) :
    config.absorb (blank config.coordinate) = config := by
  obtain ⟨typeName, fieldName, disableDefaultMapping, path, arguments, requires, unescapeJson⟩ :=
    config
  have harguments := foldl_upsertArgument_of_nodup
    ⟨typeName, fieldName, disableDefaultMapping, path, [], [], unescapeJson⟩ arguments h.arguments
  have hrequires := requireAll_eraseDups
    ⟨typeName, fieldName, disableDefaultMapping, path, arguments, [], unescapeJson⟩ [] requires
  rw [List.nil_append, eraseDups_of_nodup h.requires] at hrequires
  show requireAll requires (arguments.foldl (fun config argument => config.upsertArgument argument)
    ⟨typeName, fieldName, false || disableDefaultMapping, path, [], [], false || unescapeJson⟩) = _
  rw [Bool.false_or, Bool.false_or, harguments]
  exact hrequires

/-- **A well-formed list is merged into nothing as it is.** -/
theorem merge_nil_of_isWellFormed (hnodup : (configs.map (·.coordinate)).Nodup)
    (h : ∀ config ∈ configs, config.IsWellFormed) : merge [] configs = configs := by
  induction configs using List.reverseRecOn with
  | nil => rfl
  | append_singleton configs config ih =>
    rw [List.map_append, List.map_singleton, List.nodup_append] at hnodup
    obtain ⟨hfront, -, hnew⟩ := hnodup
    have hconfig : config.coordinate ∉ configs.map (·.coordinate) := fun hmem =>
      hnew _ hmem _ (List.mem_singleton_self _) rfl
    rw [merge_append, ih hfront fun config h' => h config (List.mem_append_left _ h')]
    show update config.coordinate config.absorb configs = configs ++ [config]
    rw [update_eq_upsert, upsert_of_not_mem hconfig,
      absorb_blank (h config (List.mem_append_right _ (List.mem_singleton_self _)))]

end FieldConfig

/-! ## Classifications -/

theorem isWellFormed_of_classify {schema : Document} {service : Option Document}
    {retypings : List ArgumentRetyping} {c : Classification}
    (hc : classify schema service retypings = .ok c) :
    (c.fields.map (·.coordinate)).Nodup ∧ ∀ config ∈ c.fields, config.IsWellFormed := by
  obtain ⟨-, rfl⟩ := classify_eq_ok.1 hc
  constructor
  · rw [Document.classification, List.map_map]
    refine List.Nodup.map_on ?_ (nodup_eraseDups _)
    exact fun _ _ _ _ e => e
  · refine List.forall_mem_map.2 fun field _ => ⟨?_, nodup_eraseDups _⟩
    have hnames : ((service.getD schema).fieldConfig retypings field).arguments.map (·.name) =
        (((service.getD schema).occurrencesOf field).flatMap (·.argumentNames)).eraseDups :=
      (List.map_map ..).trans (List.map_id _)
    rw [hnames]
    exact nodup_eraseDups _

end Supergraph
