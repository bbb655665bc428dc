import Supergraph.Proofs.Merging.Algebra

/-!
# Runs of operations in insertion order

Node lists and lists of field configurations are plain lists that are searched from the front. Built
up from nothing, by any run of their operations, they are sets and maps in insertion order.

**Theorem (`runs_in_insertion_order`).** Insertions leave one node per type, with its fields, each
once and in the order in which they first came up. Operations on configurations leave a well-formed
list with one configuration per field they mention, which says what they say of it together. An
operation changes the configurations of no other field, and whatever comes later, the
configurations, their arguments and their required fields stay where they are.

**Proof.** For nodes this is `NodeList.foldl_insert`. Every operation on configurations is a merge
(`Operation.apply_eq_merge`), so a run is a merge from nothing of all that its operations say
(`run_eq_merge`), and that has a closed form (`merge_nil_eq_joined`). What comes later is said
behind what was said before, and the first occurrences in a list come first in every longer one
(`eraseDups_prefix`).
-/

namespace Supergraph

theorem eraseDups_prefix {α : Type} [DecidableEq α] (as bs : List α) :
    as.eraseDups <+: (as ++ bs).eraseDups := by
  rw [List.eraseDups_append]
  exact List.prefix_append _ _

/-! ## Nodes -/

namespace NodeList

theorem has_iff {nodes : NodeList} {field : Coordinate} :
    nodes.has field ↔ field ∈ nodes.coordinates := by
  obtain ⟨typeName, fieldName⟩ := field
  simp [has, TypeFields.has, coordinates, TypeFields.coordinates, and_comm]

theorem group_concat_of_mem {fields : List Coordinate} {field : Coordinate} (h : field ∈ fields) :
    group (fields ++ [field]) = group fields := by
  have htypes : ((fields ++ [field]).map (·.typeName)).eraseDups =
      (fields.map (·.typeName)).eraseDups := by
    rw [List.map_append, List.map_singleton, eraseDups_concat, if_pos (List.mem_map_of_mem h)]
  rw [group, htypes, group]
  refine List.map_congr_left fun typeName _ => ?_
  by_cases htype : field.typeName = typeName
  · have hname : field.fieldName ∈
        (fields.filter (·.typeName = typeName)).map (·.fieldName) :=
      List.mem_map_of_mem (List.mem_filter.2 ⟨h, decide_eq_true htype⟩)
    simp [htype, eraseDups_concat, if_pos hname]
  · simp [htype]

/-- Inserting a field that is present changes nothing. -/
theorem insert_of_has {fields : List Coordinate} {field : Coordinate}
    (h : (fields.foldl insert []).has field) :
    (fields.foldl insert []).insert field = fields.foldl insert [] := by
  have hconcat := foldl_insert (fields ++ [field])
  rw [List.foldl_append, List.foldl_cons, List.foldl_nil] at hconcat
  rw [foldl_insert, has_iff, mem_coordinates_group] at h
  rw [hconcat, group_concat_of_mem h, foldl_insert]

end NodeList

/-! ## Operations on configurations -/

namespace FieldConfig

/-- What is done to a list of configurations. -/
inductive Operation where
  /-- Finds the configuration of a field, or makes a blank one. -/
  | find (field : Coordinate)
  | upsertArgument (field : Coordinate) (argument : ArgumentConfig)
  | require (field : Coordinate) (fieldName : String)
  | merge (others : List FieldConfig)
deriving DecidableEq, Repr, Inhabited

namespace Operation

/-- The list after an operation. An argument or a required field is added to the configuration that
is found for the field, or made. -/
def apply : Operation → List FieldConfig → List FieldConfig
  | find field, configs => update field id configs
  | upsertArgument field argument, configs =>
    update field (FieldConfig.upsertArgument argument) configs
  | require field fieldName, configs => update field (FieldConfig.require fieldName) configs
  | merge others, configs => FieldConfig.merge configs others

/-- What an operation says, in configurations of its own. -/
def configs : Operation → List FieldConfig
  | find field => [blank field]
  | upsertArgument field argument => [{ blank field with arguments := [argument] }]
  | require field fieldName => [{ blank field with requires := [fieldName] }]
  | merge others => others

/-- The fields that an operation mentions. -/
def fields : Operation → List Coordinate
  | find field | upsertArgument field _ | require field _ => [field]
  | merge others => others.map (·.coordinate)

theorem map_coordinate_configs (operation : Operation) :
    operation.configs.map (·.coordinate) = operation.fields := by
  cases operation <;> rfl

/-- What a configuration of arguments and required fields adds to another one. -/
theorem absorb_blank_with (field : Coordinate) (arguments : List ArgumentConfig)
    (requires : List String) (config : FieldConfig) :
    absorb { blank field with arguments := arguments, requires := requires } config =
      requireAll requires
        (arguments.foldl (fun config argument => config.upsertArgument argument) config) := by
  obtain ⟨typeName, fieldName, disableDefaultMapping, path, arguments', requires', unescapeJson⟩ :=
    config
  cases path <;> simp [absorb, blank]

theorem update_eq_merge (field : Coordinate) (arguments : List ArgumentConfig)
    (requires : List String) (configs : List FieldConfig) :
    update field (fun config => requireAll requires
        (arguments.foldl (fun config argument => config.upsertArgument argument) config)) configs =
      FieldConfig.merge configs
        [{ blank field with arguments := arguments, requires := requires }] :=
  congrArg (update field · configs) (funext (absorb_blank_with field arguments requires)).symm

/-- Every operation merges what it says. -/
theorem apply_eq_merge (operation : Operation) (configs : List FieldConfig) :
    operation.apply configs = FieldConfig.merge configs operation.configs := by
  cases operation with
  | find field => exact update_eq_merge field [] [] configs
  | upsertArgument field argument => exact update_eq_merge field [argument] [] configs
  | require field fieldName => exact update_eq_merge field [] [fieldName] configs
  | merge others => rfl

end Operation

/-- The list that operations build up from nothing. -/
def run (operations : List Operation) : List FieldConfig :=
  operations.foldl (fun configs operation => operation.apply configs) []

/-- A run merges all that its operations say. -/
theorem run_eq_merge (operations : List Operation) :
    run operations = merge [] (operations.flatMap Operation.configs) := by
  induction operations using List.reverseRecOn with
  | nil => rfl
  | append_singleton operations operation ih =>
    rw [run, List.foldl_append, ← run, List.foldl_cons, List.foldl_nil, ih,
      operation.apply_eq_merge, List.flatMap_append, List.flatMap_singleton, merge_append]

/-- Whether the configurations of a list, their arguments and their required fields stand at the
same places in a later list. -/
structure StaysInOrder (before after : List FieldConfig) : Prop where
  fields : before.map (·.coordinate) <+: after.map (·.coordinate)
  arguments : ∀ config ∈ before, ∀ config' ∈ after, config'.coordinate = config.coordinate →
    config.arguments.map (·.name) <+: config'.arguments.map (·.name)
  requires : ∀ config ∈ before, ∀ config' ∈ after, config'.coordinate = config.coordinate →
    config.requires <+: config'.requires

theorem arguments_joined (field : Coordinate) (configs : List FieldConfig) :
    (joined field configs).arguments.map (·.name) =
      ((configs.flatMap (·.arguments)).map (·.name)).eraseDups :=
  ArgumentConfig.names_lastOfEach _

/-- What is merged later comes behind. -/
theorem staysInOrder_merge_nil (configs others : List FieldConfig) :
    StaysInOrder (merge [] configs) (merge [] (configs ++ others)) where
  fields := by
    rw [coordinates_merge_nil, coordinates_merge_nil, List.map_append]
    exact eraseDups_prefix _ _
  arguments := by
    rw [merge_nil_eq_joined, merge_nil_eq_joined]
    refine List.forall_mem_map.2 fun field _ => List.forall_mem_map.2 fun field' _ h => ?_
    obtain rfl : field' = field := h
    rw [arguments_joined, arguments_joined, about_append, List.flatMap_append, List.map_append]
    exact eraseDups_prefix _ _
  requires := by
    rw [merge_nil_eq_joined, merge_nil_eq_joined]
    refine List.forall_mem_map.2 fun field _ => List.forall_mem_map.2 fun field' _ h => ?_
    obtain rfl : field' = field := h
    simp only [joined, about_append, List.flatMap_append]
    exact eraseDups_prefix _ _

/-- What is merged says nothing of other fields. -/
theorem about_merge_nil_append {configs others : List FieldConfig} {field : Coordinate}
    (h : field ∉ others.map (·.coordinate)) :
    about (merge [] (configs ++ others)) field = about (merge [] configs) field := by
  rw [about_merge_nil, about_merge_nil, about_append, about_eq_nil h, List.append_nil]
  simp only [List.map_append, List.mem_append, h, or_false]

/-- What a run leaves, for every field that its operations mention. -/
theorem run_eq_joined (operations : List Operation) :
    run operations = (operations.flatMap Operation.fields).eraseDups.map fun field =>
      joined field (about (operations.flatMap Operation.configs) field) := by
  rw [run_eq_merge, merge_nil_eq_joined, List.map_flatMap]
  simp only [Operation.map_coordinate_configs]

theorem areWellFormed_run (operations : List Operation) : AreWellFormed (run operations) := by
  rw [run_eq_merge]
  exact areWellFormed_merge_nil _

theorem about_apply_run (operations : List Operation) {operation : Operation} {field : Coordinate}
    (h : field ∉ operation.fields) :
    about (operation.apply (run operations)) field = about (run operations) field := by
  rw [operation.apply_eq_merge, run_eq_merge, ← merge_append]
  exact about_merge_nil_append (operation.map_coordinate_configs ▸ h)

theorem staysInOrder_run (operations more : List Operation) :
    StaysInOrder (run operations) (run (operations ++ more)) := by
  rw [run_eq_merge, run_eq_merge, List.flatMap_append]
  exact staysInOrder_merge_nil _ _

/-! ## All runs -/

/-- **Lists that are built up by operations are sets and maps in insertion order.** Nodes are
grouped by their types, all in the order of first insertion. A run of operations on configurations
leaves what they say together of each field they mention; it is well-formed, an operation leaves
other fields alone, and what stands in the list stays in its order. -/
theorem runs_in_insertion_order :
    (∀ fields : List Coordinate,
      fields.foldl NodeList.insert [] = NodeList.group fields ∧
      ∀ field, NodeList.has (fields.foldl NodeList.insert []) field →
        NodeList.insert (fields.foldl NodeList.insert []) field =
          fields.foldl NodeList.insert []) ∧
    ∀ operations : List Operation,
      (run operations = (operations.flatMap Operation.fields).eraseDups.map fun field =>
        joined field (about (operations.flatMap Operation.configs) field)) ∧
      AreWellFormed (run operations) ∧
      (∀ (operation : Operation) (field : Coordinate), field ∉ operation.fields →
        about (operation.apply (run operations)) field = about (run operations) field) ∧
      ∀ more, StaysInOrder (run operations) (run (operations ++ more)) :=
  ⟨fun fields => ⟨NodeList.foldl_insert fields, fun _ => NodeList.insert_of_has⟩,
    fun operations => ⟨run_eq_joined operations, areWellFormed_run operations,
      fun _ _ => about_apply_run operations, staysInOrder_run operations⟩⟩

/-- Two fields of one type are told apart, and an argument that is given again keeps its place. -/
def productOperations : List Operation :=
  [.find ⟨"Product", "name"⟩, .upsertArgument ⟨"Product", "reviews"⟩ (.fieldArgument "first"),
    .upsertArgument ⟨"Product", "reviews"⟩ (.fieldArgument "after"),
    .require ⟨"Product", "reviews"⟩ "upc",
    .upsertArgument ⟨"Product", "reviews"⟩ ⟨"first", .fieldArgument, [], .default, "Int"⟩]

theorem runs_in_insertion_order_products :
    let products : List FieldConfig :=
      [blank ⟨"Product", "name"⟩,
        ⟨"Product", "reviews", false, [],
          [⟨"first", .fieldArgument, [], .default, "Int"⟩, .fieldArgument "after"], ["upc"], false⟩]
    let orders : Operation := .merge (FieldConfig.orders ++ [⟨"Product", "reviews", false,
      ["allReviews"], [], ["sku", "upc"], false⟩])
    let nodes := [⟨"Query", "hello"⟩, ⟨"User", "id"⟩, ⟨"Query", "hello"⟩, ⟨"Query", "world"⟩].foldl
      NodeList.insert []
    nodes = [⟨"Query", ["hello", "world"]⟩, ⟨"User", ["id"]⟩] ∧
      NodeList.has nodes ⟨"User", "id"⟩ ∧ NodeList.insert nodes ⟨"User", "id"⟩ = nodes ∧
      run productOperations = products ∧ AreWellFormed products ∧
      ⟨"Product", "name"⟩ ∉ orders.fields ∧
      about (orders.apply products) ⟨"Product", "name"⟩ = [blank ⟨"Product", "name"⟩] ∧
      StaysInOrder products (run (productOperations ++ [orders])) := by
  intro products orders nodes
  obtain ⟨hnodes, hconfigs⟩ := runs_in_insertion_order
  obtain ⟨-, hwellFormed, hothers, horder⟩ := hconfigs productOperations
  have hrun : run productOperations = products := by decide
  have hpresent : NodeList.has nodes ⟨"User", "id"⟩ := by decide
  have hother : ⟨"Product", "name"⟩ ∉ orders.fields := by decide
  have hsame := hothers orders _ hother
  have hstays := horder [orders]
  rw [hrun] at hwellFormed hsame hstays
  exact ⟨by decide, hpresent, (hnodes _).2 _ hpresent, hrun, hwellFormed, hother,
    hsame.trans (by decide), hstays⟩

end FieldConfig

end Supergraph
