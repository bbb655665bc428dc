import Mathlib.Data.List.Nodup
import Supergraph.Backend.Database
import Supergraph.Proofs.Consistency.Namespaces

/-!
# A data source for every root field

The composite of a database is made from the classification of its document, but the root nodes are
split: every root field has a data source of its own, which is moved into the namespace alone. All
data sources have the same child nodes. The fields that hold JSON are marked before the
configurations are moved.

**Theorem (`composite_splits`).** Nothing is lost on the way. There is one data source for each root
field, in the order of the root nodes, and together they have the root nodes that moving all of them
at once would give. Everything else about them is the same. The marked fields of the composite are
exactly the fields that the engine reported as JSON, under their names in the namespace.

**Proof.** Root nodes list no field twice (`nodup_coordinates_group`), and moving a list of nodes
moves each of its fields (`coordinates_applyToNodes`). A mark is neither lost nor invented by the
steps that configurations go through: the classification sets none, marking a field sets one
(`readsJson_update`), and the namespace moves them (`readsJson_applyToFieldConfigs`).
-/

namespace Supergraph

/-! ## Nodes -/

/-- No field is listed twice. -/
theorem NodeList.nodup_coordinates_group (fields : List Coordinate) :
    (group fields).coordinates.Nodup := by
  rw [coordinates, group, List.flatMap_map, List.nodup_flatMap]
  constructor
  · intro typeName _
    refine (nodup_eraseDups _).map fun a b e => ?_
    exact congrArg Coordinate.fieldName e
  · refine (nodup_eraseDups _).imp ?_
    intro first second hne field hfirst hsecond
    obtain ⟨_, -, rfl⟩ := List.mem_map.1 hfirst
    obtain ⟨_, -, e⟩ := List.mem_map.1 hsecond
    exact hne (congrArg Coordinate.typeName e).symm

namespace Namespace

variable {ns : Namespace} {document : Document}

theorem coordinates_applyToNodes (ns : Namespace) (nodes : NodeList) (document : Document) :
    (ns.applyToNodes nodes document).coordinates =
      nodes.coordinates.map (ns.moves (.ofDocument document)).coordinate :=
  NodeList.coordinates_map_node (ns.moves (.ofDocument document)) nodes

end Namespace

/-! ## Fields that hold JSON -/

namespace FieldConfig

/-- Whether the text of a field is read as JSON. -/
def ReadsJson (configs : List FieldConfig) (field : Coordinate) : Prop :=
  ∃ config ∈ configs, config.coordinate = field ∧ config.unescapeJson

instance (configs : List FieldConfig) : DecidablePred (ReadsJson configs) :=
  fun _ => inferInstanceAs (Decidable (∃ _ ∈ _, _))

variable {config : FieldConfig} {configs : List FieldConfig} {field : Coordinate}

theorem readsJson_cons : ReadsJson (config :: configs) field ↔
    (config.coordinate = field ∧ config.unescapeJson) ∨ ReadsJson configs field := by
  simp [ReadsJson]

theorem not_readsJson (h : ∀ config ∈ configs, config.unescapeJson = false) :
    ¬ ReadsJson configs field := by
  rintro ⟨config, hconfig, -, hmarked⟩
  rw [h config hconfig] at hmarked
  cases hmarked

theorem readsJson_append {more : List FieldConfig} :
    ReadsJson (configs ++ more) field ↔ ReadsJson configs field ∨ ReadsJson more field := by
  simp [ReadsJson, or_and_right, exists_or]

/-- A mark on one field leaves all others as they are. -/
theorem readsJson_update (configs : List FieldConfig) (other : Coordinate) :
    ReadsJson (update other (fun config => { config with unescapeJson := true }) configs) field ↔
      ReadsJson configs field ∨ other = field := by
  induction configs with
  | nil =>
    have hblank : ({ blank other with unescapeJson := true } : FieldConfig).coordinate = other :=
      rfl
    simp [update, ReadsJson, hblank]
  | cons config rest ih =>
    have hmarked : ({ config with unescapeJson := true } : FieldConfig).coordinate =
        config.coordinate := rfl
    rw [update]
    split_ifs with h
    · simp only [readsJson_cons, hmarked, h]
      tauto
    · rw [readsJson_cons, readsJson_cons, ih, or_assoc]

theorem readsJson_markJson (fields : List Coordinate) (configs : List FieldConfig) :
    ReadsJson (DatabaseBackend.markJson configs fields) field ↔
      ReadsJson configs field ∨ field ∈ fields := by
  induction fields generalizing configs with
  | nil => simp [DatabaseBackend.markJson]
  | cons other rest ih =>
    rw [DatabaseBackend.markJson, List.foldl_cons, ← DatabaseBackend.markJson, ih,
      readsJson_update, or_assoc, List.mem_cons, eq_comm]

end FieldConfig

/-- A classification marks nothing. -/
theorem not_readsJson_of_classify {schema : Document} {service : Option Document}
    {retypings : List ArgumentRetyping} {c : Classification}
    (hc : classify schema service retypings = .ok c) (field : Coordinate) :
    ¬ FieldConfig.ReadsJson c.fields field := by
  obtain ⟨-, rfl⟩ := classify_eq_ok.1 hc
  exact FieldConfig.not_readsJson (List.forall_mem_map.2 fun _ _ => rfl)

namespace Namespace

variable {ns : Namespace} {document : Document} {configs : List FieldConfig} {field : Coordinate}

theorem unescapeJson_applyToFieldConfig (ns : Namespace) (roots : RootTypes)
    (config : FieldConfig) :
    (ns.applyToFieldConfig roots config).unescapeJson = config.unescapeJson := by
  unfold applyToFieldConfig
  split_ifs <;> rfl

/-- Marks are moved with their fields, and the configurations that are added have none. -/
theorem readsJson_applyToFieldConfigs (ns : Namespace) (document : Document)
    (configs : List FieldConfig) :
    FieldConfig.ReadsJson (ns.applyToFieldConfigs configs document) field ↔
      ∃ own, FieldConfig.ReadsJson configs own ∧
        (ns.moves (.ofDocument document)).coordinate own = field := by
  obtain ⟨rest, hfold, hrest, -⟩ := ns.foldl_addRootField
    (rootFields (.ofDocument document) document)
    (configs.map (ns.applyToFieldConfig (.ofDocument document)))
  have hnone : ¬ FieldConfig.ReadsJson rest field := FieldConfig.not_readsJson fun config h => by
    obtain ⟨_, -, -, rfl⟩ := hrest config h
    rfl
  rw [applyToFieldConfigs, hfold, FieldConfig.readsJson_append, or_iff_left hnone]
  constructor
  · rintro ⟨_, h, rfl, hmarked⟩
    obtain ⟨config, hconfig, rfl⟩ := List.mem_map.1 h
    rw [unescapeJson_applyToFieldConfig] at hmarked
    exact ⟨config.coordinate, ⟨config, hconfig, rfl, hmarked⟩,
      (coordinate_applyToFieldConfig ns _ config).symm⟩
  · rintro ⟨_, ⟨config, hconfig, rfl, hmarked⟩, rfl⟩
    exact ⟨_, List.mem_map_of_mem hconfig, coordinate_applyToFieldConfig ns _ config,
      (unescapeJson_applyToFieldConfig ns _ config).trans hmarked⟩

end Namespace

/-! ## Composites -/

namespace DatabaseBackend

/-- The document with its scalars replaced. -/
def replaced (backend : DatabaseBackend) (served : Document) : Document :=
  ScalarReplacement.applyToDocument backend.scalarReplacements served

/-- The classification of the document with its scalars replaced. -/
def classified (backend : DatabaseBackend) (served : Document) : Except Error Classification :=
  classify (backend.replaced served) none
    (ScalarReplacement.retypings backend.scalarReplacements served)

/-- The new names of types and fields. -/
def moves (backend : DatabaseBackend) (served : Document) : Renaming :=
  backend.scope.moves (.ofDocument (backend.replaced served))

/-- The data sources split the root nodes of the classification and share everything else, and the
marked fields are those that the report names. -/
structure Splits (backend : DatabaseBackend) (report : DatabaseReport) (served : Document)
    (c : Classification) (composite : Composite DatabasePayload) : Prop where
  distinct : c.rootNodes.coordinates.Nodup
  rootNodes : List.Forall₂ (fun field source =>
    source.rootNodes = [⟨((backend.moves served).coordinate field).typeName,
      [((backend.moves served).coordinate field).fieldName]⟩])
    c.rootNodes.coordinates composite.dataSources
  whole : composite.dataSources.flatMap (·.rootNodes.coordinates) =
    (backend.scope.applyToNodes c.rootNodes (backend.replaced served)).coordinates
  childNodes : ∀ source ∈ composite.dataSources,
    source.childNodes = backend.scope.applyToNodes c.childNodes (backend.replaced served)
  shared : ∀ source ∈ composite.dataSources,
    source.kind = backend.kind.dataSourceKind ∧
    source.payload = backend.payload report served.print ∧
    source.id = backend.settings.id ∧
    source.requestTimeoutSeconds = backend.settings.requestTimeoutSeconds
  json : ∀ field, FieldConfig.ReadsJson composite.fields field ↔
    ∃ own ∈ report.jsonFields ++ report.jsonResponseFields,
      (backend.moves served).coordinate own = field

variable {backend : DatabaseBackend} {report : DatabaseReport}
  {composite : Composite DatabasePayload}

theorem exists_of_composite (h : backend.composite report = .ok composite) :
    ∃ served c, parseSchema (extendSchema report.graphqlSchema backend.schemaExtension) =
        .ok served ∧
      backend.classified served = .ok c ∧
      composite.dataSources = c.rootNodes.coordinates.map (backend.dataSource
        (backend.payload report served.print) (backend.replaced served) c.childNodes) ∧
      composite.fields = backend.scope.applyToFieldConfigs
        (markJson c.fields (report.jsonFields ++ report.jsonResponseFields))
        (backend.replaced served) := by
  obtain ⟨served, hserved, h⟩ := bind_eq_ok.1 h
  obtain ⟨c, hc, h⟩ := bind_eq_ok.1 h
  obtain ⟨schema, -, h⟩ := bind_eq_ok.1 h
  obtain rfl := Except.ok.inj h
  exact ⟨served, c, hserved, hc, rfl, rfl⟩

/-- **The root fields of a database are split without loss.** -/
theorem composite_splits (backend : DatabaseBackend) (report : DatabaseReport)
    (composite : Composite DatabasePayload) (h : backend.composite report = .ok composite) :
    ∃ served c, parseSchema (extendSchema report.graphqlSchema backend.schemaExtension) =
        .ok served ∧
      backend.classified served = .ok c ∧ backend.Splits report served c composite := by
  obtain ⟨served, c, hserved, hc, hsources, hfields⟩ := exists_of_composite h
  refine ⟨served, c, hserved, hc, ?_⟩
  exact {
    distinct := by
      obtain ⟨-, rfl⟩ := classify_eq_ok.1 hc
      exact NodeList.nodup_coordinates_group _
    rootNodes := by
      rw [hsources, List.forall₂_map_right_iff, List.forall₂_same]
      exact fun field _ => rfl
    whole := by
      -- Every source has one root field, so all of them together list them in order.
      have hown (field : Coordinate) : (backend.dataSource (backend.payload report served.print)
          (backend.replaced served) c.childNodes field).rootNodes.coordinates =
            [(backend.moves served).coordinate field] := rfl
      rw [hsources, List.flatMap_map, Namespace.coordinates_applyToNodes]
      simp only [hown]
      exact List.map_eq_flatMap.symm
    childNodes := by
      rw [hsources]
      exact List.forall_mem_map.2 fun _ _ => rfl
    shared := by
      rw [hsources]
      exact List.forall_mem_map.2 fun _ _ => ⟨rfl, rfl, rfl, rfl⟩
    json field := by
      rw [hfields, Namespace.readsJson_applyToFieldConfigs]
      simp only [FieldConfig.readsJson_markJson, not_readsJson_of_classify hc, false_or]
      rfl }

/-! ## A database with a JSON column -/

/-- A database in the namespace `db`, where the field `user` keeps its name and the column `meta` of
a user gets a type of its own. -/
def users : DatabaseBackend :=
  { ofUrl .mysql (.literal "mysql://db") with
    apiNamespace := some "db"
    skippedRootFields := ["user"]
    schemaExtension := some "type Meta\x7btheme:String\x7d"
    scalarReplacements := [.ofResponse "User" "meta" "Meta"] }

/-- What the engine reports: a column and a root field hold JSON. -/
def usersReport : DatabaseReport :=
  { DatabaseReport.blank with
    success := true
    graphqlSchema := "scalar Json type Query\x7busers:[User] user(by:Json):User\x7d " ++
      "type Mutation\x7baddUser:User\x7d type User\x7bid:ID meta:Json\x7d"
    jsonFields := [⟨"User", "meta"⟩]
    jsonResponseFields := [⟨"Query", "users"⟩] }

/-- Three root fields of two types make three data sources, and both JSON fields are marked. -/
theorem composite_splits_users :
    ∃ composite served c, users.composite usersReport = .ok composite ∧
      users.classified served = .ok c ∧ users.Splits usersReport served c composite ∧
      composite.dataSources.map (·.rootNodes) = [[⟨"Query", ["db_users"]⟩],
        [⟨"Query", ["user"]⟩], [⟨"Mutation", ["db_addUser"]⟩]] ∧
      composite.dataSources.map (·.childNodes) = List.replicate 3
        [⟨"db_User", ["id", "meta"]⟩, ⟨"db_Meta", ["theme"]⟩] ∧
      (composite.fields.filter (·.unescapeJson)).map (·.coordinate) =
        [⟨"db_User", "meta"⟩, ⟨"Query", "db_users"⟩] := by
  obtain ⟨composite, hcomposite, hroots, hchildren, hjson⟩ :
      ∃ composite ∈ (users.composite usersReport).toOption,
      composite.dataSources.map (·.rootNodes) = [[⟨"Query", ["db_users"]⟩],
        [⟨"Query", ["user"]⟩], [⟨"Mutation", ["db_addUser"]⟩]] ∧
      composite.dataSources.map (·.childNodes) = List.replicate 3
        [⟨"db_User", ["id", "meta"]⟩, ⟨"db_Meta", ["theme"]⟩] ∧
      (composite.fields.filter (·.unescapeJson)).map (·.coordinate) =
        [⟨"db_User", "meta"⟩, ⟨"Query", "db_users"⟩] := by
    decide +kernel
  obtain ⟨served, c, -, hc, hsplits⟩ :=
    composite_splits users usersReport composite (mem_toOption.1 hcomposite)
  exact ⟨composite, served, c, mem_toOption.1 hcomposite, hc, hsplits, hroots, hchildren, hjson⟩

end DatabaseBackend

end Supergraph
