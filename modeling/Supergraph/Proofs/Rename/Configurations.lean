import Supergraph.Proofs.Rename.SourcePaths

/-!
# Renames and field configurations

A field configuration names fields of one type: the field that it is for, the fields that this one
requires, and the steps of source paths. Renames give each of these names a new one. In the path of
the field in a response only its own name is replaced.

`FieldConfig.mapFields` makes such a change with any function on names
(`FieldRename.applyToFieldConfig_eq_mapFields`). What two changes do to a path one after the other
is what they do at once if the name that the first one writes there is new, or is kept by the second
one (`mapFields_mapFields`).
-/

namespace Supergraph

open FieldRename (applyToPath)

/-- Applies `f` to the fields that an argument configuration names. -/
def ArgumentConfig.mapFields (f : String → String) (argument : ArgumentConfig) : ArgumentConfig :=
  match argument.source with
  | .objectField => { argument with sourcePath := argument.sourcePath.map f }
  | .fieldArgument => argument

namespace FieldConfig

/-- Applies `f` to the fields that a configuration names, and to its own name in its path. -/
def mapFields (f : String → String) (config : FieldConfig) : FieldConfig :=
  { config with
    fieldName := f config.fieldName
    path := applyToPath config.fieldName (f config.fieldName) config.path
    arguments := config.arguments.map (·.mapFields f)
    requires := config.requires.map f }

/-- The fields that a configuration names, apart from its path. -/
def namedFields (config : FieldConfig) : List Coordinate :=
  (config.fieldName :: (config.requires ++ config.sourcePaths.flatMap (·.path))).map
    (⟨config.typeName, ·⟩)

/-- The items of the path, as fields of the type of the configuration. -/
def pathFields (config : FieldConfig) : List Coordinate :=
  config.path.map (⟨config.typeName, ·⟩)

end FieldConfig

/-! ## Paths -/

section Paths

variable {f g : String → String} {name : String} {path : List String}

theorem applyToPath_self (name : String) (path : List String) :
    applyToPath name name path = path := by
  refine (List.map_congr_left ?_).trans (List.map_id _)
  intro item _
  split_ifs with h
  · exact h.symm
  · rfl

theorem applyToPath_applyToPath
    (h : f name ≠ name → f name ∈ path → g (f name) = f name) :
    applyToPath (f name) (g (f name)) (applyToPath name (f name) path) =
      applyToPath name (g (f name)) path := by
  by_cases hkept : f name = name
  · rw [hkept, applyToPath_self]
  · rw [applyToPath, applyToPath, List.map_map, applyToPath]
    refine List.map_congr_left ?_
    intro item hitem
    by_cases hown : item = name
    · simp [hown]
    · by_cases hnew : item = f name
      · subst hnew
        simp [hown, h hkept hitem]
      · simp [hown, hnew]

end Paths

/-! ## Arguments -/

namespace ArgumentConfig

variable {f g : String → String}

theorem mapFields_mapFields (argument : ArgumentConfig) :
    (argument.mapFields f).mapFields g = argument.mapFields (g ∘ f) := by
  obtain ⟨name, source, sourcePath, rendering, renameTypeTo⟩ := argument
  cases source <;> simp [mapFields]

theorem mapFields_congr {argument : ArgumentConfig}
    (h : argument.source = .objectField → ∀ name ∈ argument.sourcePath, f name = g name) :
    argument.mapFields f = argument.mapFields g := by
  obtain ⟨name, source, sourcePath, rendering, renameTypeTo⟩ := argument
  cases source with
  | fieldArgument => rfl
  | objectField => simp only [mapFields, List.map_congr_left (h rfl)]

theorem mapFields_id (argument : ArgumentConfig) :
    argument.mapFields (fun name => name) = argument := by
  obtain ⟨name, source, sourcePath, rendering, renameTypeTo⟩ := argument
  cases source <;> simp [mapFields]

end ArgumentConfig

/-! ## Configurations -/

namespace FieldConfig

variable {f g : String → String} {config : FieldConfig}

theorem mapFields_mapFields (h : f config.fieldName ≠ config.fieldName →
    f config.fieldName ∈ config.path → g (f config.fieldName) = f config.fieldName) :
    (config.mapFields f).mapFields g = config.mapFields (g ∘ f) := by
  simp only [mapFields, applyToPath_applyToPath h, List.map_map, Function.comp_def,
    ArgumentConfig.mapFields_mapFields]

theorem mapFields_congr
    (h : ∀ field ∈ config.namedFields, f field.fieldName = g field.fieldName) :
    config.mapFields f = config.mapFields g := by
  have hname : ∀ name ∈ config.fieldName :: (config.requires ++
      config.sourcePaths.flatMap (·.path)), f name = g name := by
    intro name hname
    exact h _ (List.mem_map_of_mem hname)
  obtain ⟨hfield, hrest⟩ := List.forall_mem_cons.1 hname
  obtain ⟨hrequires, hpaths⟩ := List.forall_mem_append.1 hrest
  have harguments : config.arguments.map (·.mapFields f) =
      config.arguments.map (·.mapFields g) := by
    refine List.map_congr_left ?_
    intro argument hargument
    refine ArgumentConfig.mapFields_congr ?_
    intro hsource name hstep
    have hsourcePath : ⟨config.typeName, argument.sourcePath⟩ ∈ config.sourcePaths :=
      List.mem_map_of_mem (f := fun argument : ArgumentConfig =>
        SourcePath.mk config.typeName argument.sourcePath)
        (List.mem_filter.2 ⟨hargument, decide_eq_true hsource⟩)
    exact hpaths name (List.mem_flatMap.2 ⟨_, hsourcePath, hstep⟩)
  rw [mapFields, hfield, harguments, List.map_congr_left hrequires, mapFields]

theorem mapFields_id (config : FieldConfig) : config.mapFields (fun name => name) = config := by
  simp only [mapFields, applyToPath_self, ArgumentConfig.mapFields_id, List.map_id']

end FieldConfig

/-! ## Renames -/

namespace FieldRename

variable {renames : List FieldRename}

theorem applyToArgumentConfig_eq (typeName : String) :
    applyToArgumentConfig renames typeName = (·.mapFields (apply renames typeName)) := rfl

/-- Where the field itself is not renamed, its path stays. -/
theorem applyToFieldConfig_eq_mapFields (config : FieldConfig) :
    applyToFieldConfig renames config = config.mapFields (apply renames config.typeName) := by
  unfold applyToFieldConfig FieldConfig.mapFields
  rw [applyToArgumentConfig_eq]
  cases h : find? renames config.typeName config.fieldName with
  | none => simp only [apply, h, Option.getD_none, applyToPath_self]
  | some target => simp only [apply, h, Option.getD_some]

theorem namedFields_applyToFieldConfig (config : FieldConfig) :
    (applyToFieldConfig renames config).namedFields =
      config.namedFields.map (newNames renames).coordinate := by
  have hpaths : (applyToFieldConfig renames config).sourcePaths.flatMap (·.path) =
      (config.sourcePaths.flatMap (·.path)).map (apply renames config.typeName) := by
    rw [sourcePaths_applyToFieldConfig, List.flatMap_map, List.map_flatMap]
    refine List.flatMap_congr ?_
    intro source hsource
    obtain ⟨argument, -, rfl⟩ := List.mem_map.1 hsource
    rfl
  rw [FieldConfig.namedFields, hpaths, applyToFieldConfig_eq_mapFields, FieldConfig.namedFields]
  simp only [FieldConfig.mapFields, ← List.map_append, ← List.map_cons, List.map_map]
  rfl

end FieldRename

end Supergraph
