import Supergraph.Proofs.Federation.Joined
import Supergraph.Proofs.Merging

/-!
# A federation and its servers alone

A federation makes its data sources and configurations from the schemas of all servers together,
which it prints and reads again on the way. Each server also has a composite of its own, for which
nothing is put together, printed or merged.

**Theorem (`agrees_with_servers`).** If no server has a `schema` definition, the data sources of a
federation are those of the servers alone, the composed schema has the definitions of all servers
without those that are printed like an earlier one, and each field is configured once, namely if a
server alone configures it. A federation of one server that repeats no definition is that server.

What is printed has to read back, definition by definition. Then all documents on the way are known
(`Federation.Member`), and what one server contributes is the same in view of all schemas together
as in view of its own.
-/

namespace Supergraph

/-- Only fields of declared types have nodes and configurations. -/
theorem declared_of_classify {own : Document} {service : Option Document}
    {retypings : List ArgumentRetyping} {c : Classification}
    (hc : classify own service retypings = .ok c)
    (hservice : service.getD own = own) :
    (∀ node ∈ c.rootNodes, node.typeName ∈ own.declaredNames) ∧
      (∀ node ∈ c.childNodes, node.typeName ∈ own.declaredNames) ∧
      ∀ config ∈ c.fields, config.typeName ∈ own.declaredNames := by
  obtain ⟨-, rfl⟩ := classify_eq_ok.1 hc
  rw [hservice]
  -- Every list of the classification is made of fields that occur.
  have hdeclared : ∀ (p : Occurrence → Prop) [DecidablePred p],
      ∀ field ∈ own.fieldsWith p, field.typeName ∈ own.declaredNames := by
    intro p _ field hfield
    obtain ⟨o, ho, rfl⟩ := List.mem_map.1 hfield
    exact Document.declared_of_mem_containers
      (Document.mem_occurrences.1 (List.mem_filter.1 ho).1).1
  have hnodes : ∀ (p : Occurrence → Prop) [DecidablePred p],
      ∀ node ∈ NodeList.group (own.fieldsWith p), node.typeName ∈ own.declaredNames := by
    intro p _ node hnode
    obtain ⟨typeName, htype, rfl⟩ := List.mem_map.1 hnode
    obtain ⟨field, hfield, rfl⟩ := List.mem_map.1 (List.mem_eraseDups.1 htype)
    exact hdeclared p field hfield
  refine ⟨hnodes _, hnodes _, List.forall_mem_map.2 fun field hfield => ?_⟩
  exact hdeclared _ field (List.mem_eraseDups.1 hfield)

/-! ## Servers -/

namespace GraphQLBackend

/-- The schema of a server as the gateway shows it, before it is printed. -/
def shown (backend : GraphQLBackend) (sdl : String) : Except Error Document := do
  return ScalarReplacement.applyToDocument backend.scalarReplacements
    (← parseSchema (extendSchema sdl backend.schemaExtension))

/-- Whether the schema text of a server, with its extension, has no `schema` definition. -/
def NamesNoRoots (backend : GraphQLBackend) (sdl : String) : Prop :=
  ∀ document ∈ (parseSchema (extendSchema sdl backend.schemaExtension)).toOption,
    document.definitions.filterMap RootTypes.named? = []

/-- Whether the definitions that the gateway shows of a server read back. -/
def PrintsFaithfully (backend : GraphQLBackend) (sdl : String) : Prop :=
  ∀ document ∈ (backend.shown sdl).toOption,
    ∀ definition ∈ document.definitions, definition.ReadsBack

instance (backend : GraphQLBackend) (sdl : String) : Decidable (backend.NamesNoRoots sdl) :=
  inferInstanceAs (Decidable (∀ document ∈ Except.toOption _, _))

instance (backend : GraphQLBackend) (sdl : String) : Decidable (backend.PrintsFaithfully sdl) :=
  inferInstanceAs (Decidable (∀ document ∈ Except.toOption _, _))

variable {backend : GraphQLBackend} {sdl : String} {prepared : PreparedSchema}
  {ns : Namespace} {own composed : Document}

/-- A server whose schema is made ready shows a document that can be put together with others. -/
theorem exists_shown (h : backend.prepare sdl = .ok prepared) (hroots : backend.NamesNoRoots sdl)
    (hprints : backend.PrintsFaithfully sdl) :
    ∃ document, backend.shown sdl = .ok document ∧ prepared.exposed = document.print ∧
      Federation.IsComposable document := by
  obtain ⟨document, hdocument, h⟩ := bind_eq_ok.1 h
  obtain rfl := Except.ok.inj h
  have hshown : backend.shown sdl =
      .ok (ScalarReplacement.applyToDocument backend.scalarReplacements document) := by
    rw [shown, hdocument]
    rfl
  refine ⟨_, hshown, rfl, hprints _ (mem_toOption.2 hshown), ?_⟩
  exact (RootTypes.filterMap_named?_mapFields _ document).trans
    (hroots document (mem_toOption.2 hdocument))

/-- The configurations of a server are those of a classification of its schema. -/
theorem exists_classification {source : DataSource GraphQLPayload} {fields : List FieldConfig}
    (hown : parseSchema prepared.exposed = .ok own)
    (h : backend.dataSource prepared ns composed = .ok (source, fields)) :
    ∃ service c, classify own service prepared.retypings = .ok c ∧ service.getD own = own ∧
      c.fields = fields := by
  obtain ⟨document, hdocument, h⟩ := bind_eq_ok.1 h
  obtain rfl := Except.ok.inj (hown.symm.trans hdocument)
  obtain ⟨c, hc, h⟩ := bind_eq_ok.1 h
  obtain ⟨fetch, -, h⟩ := bind_eq_ok.1 h
  obtain ⟨-, rfl⟩ := Prod.mk.injEq .. ▸ Except.ok.inj h
  exact ⟨_, c, hc, by split_ifs <;> rfl, rfl⟩

/-- The nodes of a server are moved alike in view of its own schema and of a composed one. -/
theorem dataSource_own {part : DataSource GraphQLPayload × List FieldConfig}
    (hown : parseSchema prepared.exposed = .ok own) (hshares : own.SharesRoots composed)
    (h : backend.dataSource prepared ns composed = .ok part) :
    backend.dataSource prepared ns own = .ok part := by
  obtain ⟨document, hdocument, h⟩ := bind_eq_ok.1 h
  obtain rfl := Except.ok.inj (hown.symm.trans hdocument)
  obtain ⟨classification, hclassification, h⟩ := bind_eq_ok.1 h
  obtain ⟨fetch, hfetch, h⟩ := bind_eq_ok.1 h
  obtain ⟨hroot, hchild, -⟩ := declared_of_classify hclassification (by split_ifs <;> rfl)
  refine bind_eq_ok.2 ⟨own, hown, bind_eq_ok.2 ⟨classification, hclassification,
    bind_eq_ok.2 ⟨fetch, hfetch, h ▸ ?_⟩⟩⟩
  simp only [Namespace.applyToNodes_congr hshares hroot,
    Namespace.applyToNodes_congr hshares hchild]

end GraphQLBackend

/-! ## What servers contribute -/

/-- A server of a federation with its schema and what becomes of it. -/
structure Federation.Member where
  server : GraphQLBackend
  sdl : String
  prepared : PreparedSchema
  document : Document
  source : DataSource GraphQLPayload
  fields : List FieldConfig

namespace Federation

/-- Whether a member is what becomes of its server in view of a composed schema. -/
structure Member.IsMade (ns : Namespace) (composed : Document) (m : Member) : Prop where
  prepare : m.server.prepare m.sdl = .ok m.prepared
  shown : m.server.shown m.sdl = .ok m.document
  exposed : m.prepared.exposed = m.document.print
  composable : IsComposable m.document
  dataSource : m.server.dataSource m.prepared ns composed = .ok (m.source, m.fields)

/-- The composite of a member alone. -/
def Member.alone (ns : Namespace) (m : Member) : Composite GraphQLPayload :=
  .make (ns.applyToDocument m.document).print [m.source]
    (ns.applyToFieldConfigs m.fields m.document) (ns.typeMappings m.document) []

variable {ns : Namespace} {composed : Document}

namespace Member.IsMade

variable {m : Member} (h : m.IsMade ns composed)

include h

theorem reads : parseSchema m.prepared.exposed = .ok m.document := by
  obtain ⟨read, hread, -⟩ := bind_eq_ok.1 h.dataSource
  obtain rfl := Document.eq_of_parseSchema_print h.composable.readsBack (h.exposed ▸ hread)
  exact hread

theorem composite_eq (hshares : m.document.SharesRoots composed) (hscope : m.server.scope = ns) :
    m.server.composite m.sdl = .ok (m.alone ns) := by
  have hschema : ns.applyToSchema m.prepared.exposed = .ok (ns.applyToDocument m.document).print :=
    h.exposed ▸ Namespace.applyToSchema_print (h.exposed ▸ h.reads)
  have hsource := GraphQLBackend.dataSource_own h.reads hshares h.dataSource
  refine bind_eq_ok.2 ⟨_, h.prepare, bind_eq_ok.2 ⟨_, h.reads, ?_⟩⟩
  simp only [hscope]
  exact bind_eq_ok.2 ⟨_, hsource, bind_eq_ok.2 ⟨_, hschema, rfl⟩⟩

theorem isWellFormed : (m.fields.map (·.coordinate)).Nodup ∧
    ∀ config ∈ m.fields, config.IsWellFormed := by
  obtain ⟨service, c, hc, -, hfields⟩ := GraphQLBackend.exists_classification h.reads h.dataSource
  exact hfields ▸ isWellFormed_of_classify hc

theorem declared {field : Coordinate} (hfield : field ∈ m.fields.map (·.coordinate) ∨
      field ∈ Namespace.rootFields (.ofDocument m.document) m.document) :
    field.typeName ∈ m.document.declaredNames := by
  rcases hfield with hfield | hfield
  · obtain ⟨service, c, hc, hservice, hfields⟩ :=
      GraphQLBackend.exists_classification h.reads h.dataSource
    obtain ⟨config, hconfig, rfl⟩ := List.mem_map.1 hfield
    exact (declared_of_classify hc hservice).2.2 config (hfields ▸ hconfig)
  · obtain ⟨container, hcontainer, -, -, f, -, rfl⟩ := Namespace.mem_rootFields.1 hfield
    exact Document.declared_of_mem_containers hcontainer

/-- Nothing is dropped from a document alone that repeats no definition. -/
theorem joined_eq (hnodup : m.document.definitions.Nodup) : joined [m.document] = m.document := by
  have hprinted : (m.document.definitions.map Definition.print).Nodup :=
    hnodup.map_on fun a ha b hb e =>
      (h.composable.readsBack a ha).eq_of_print (h.composable.readsBack b hb) e
  rw [joined, concat, List.flatMap_singleton, distinct_of_nodup hprinted]

theorem merge_eq : FieldConfig.merge [] m.fields = m.fields :=
  FieldConfig.merge_nil_of_isWellFormed h.isWellFormed.1 h.isWellFormed.2

end Member.IsMade

theorem isComposable_of_isMade {members : List Member}
    (hmade : ∀ m ∈ members, m.IsMade ns composed) :
    ∀ document ∈ members.map (·.document), IsComposable document :=
  List.forall_mem_map.2 fun m hm => (hmade m hm).composable

/-- The data sources of a federation are those of its members, and their configurations are merged.
-/
theorem exists_members {servers : List GraphQLBackend} {sdls : List String}
    {prepared : List PreparedSchema} {before fields : List FieldConfig}
    {sources : List (DataSource GraphQLPayload)}
    (hprepared : List.Forall₂ (fun x prepared => x.1.prepare x.2 = .ok prepared)
      (servers.zip sdls) prepared)
    (hlength : prepared.length = servers.length)
    (hsources : dataSources ns composed (servers.zip prepared) before = .ok (sources, fields))
    (hroots : ∀ x ∈ servers.zip sdls, x.1.NamesNoRoots x.2)
    (hprints : ∀ x ∈ servers.zip sdls, x.1.PrintsFaithfully x.2) :
    ∃ members : List Member, (∀ m ∈ members, m.IsMade ns composed) ∧
      members.map (fun m => (m.server, m.sdl)) = servers.zip sdls ∧
      members.map (·.prepared) = prepared ∧
      members.map (·.source) = sources ∧
      fields = FieldConfig.merge before (members.flatMap (·.fields)) := by
  induction servers generalizing sdls prepared before sources with
  | nil =>
    obtain rfl := List.length_eq_zero_iff.1 hlength
    obtain ⟨rfl, rfl⟩ := Prod.mk.injEq .. ▸ Except.ok.inj hsources
    exact ⟨[], by simp, rfl, rfl, rfl, rfl⟩
  | cons server servers ih =>
    obtain ⟨first, prepared, rfl⟩ := List.exists_cons_of_length_eq_add_one hlength
    cases sdls with
    | nil => cases hprepared
    | cons sdl sdls =>
      obtain ⟨hfirst, hrest⟩ := List.forall₂_cons.1 hprepared
      obtain ⟨⟨source, own⟩, hsource, h⟩ := bind_eq_ok.1 hsources
      obtain ⟨⟨others, merged⟩, hothers, h⟩ := bind_eq_ok.1 h
      obtain ⟨rfl, rfl⟩ := Prod.mk.injEq .. ▸ Except.ok.inj h
      obtain ⟨hroot, hroots⟩ := List.forall_mem_cons.1 hroots
      obtain ⟨hprint, hprints⟩ := List.forall_mem_cons.1 hprints
      obtain ⟨document, hshown, hexposed, hcomposable⟩ :=
        GraphQLBackend.exists_shown hfirst hroot hprint
      obtain ⟨members, hmade, hservers, hprepared, hmembers, hfields⟩ :=
        ih hrest (Nat.succ.inj hlength) hothers hroots hprints
      -- The merged configurations go on from those of the servers before.
      refine ⟨⟨server, sdl, first, document, source, own⟩ :: members,
        List.forall_mem_cons.2 ⟨⟨hfirst, hshown, hexposed, hcomposable, hsource⟩, hmade⟩,
        congrArg (List.cons _) hservers, congrArg (List.cons _) hprepared,
        congrArg (List.cons _) hmembers, ?_⟩
      rw [hfields, List.flatMap_cons, FieldConfig.merge_append]

/-! ## The composite -/

variable {federation : Federation} {sdls : List String} {c : Composite GraphQLPayload}

/-- The schemas of all servers as the gateway shows them, before they are printed. -/
def shown (federation : Federation) (sdls : List String) : Except Error (List Document) :=
  (federation.servers.zip sdls).mapM fun x => x.1.shown x.2

/-- The composites of all servers, of each one alone. -/
def alone (federation : Federation) (sdls : List String) :
    Except Error (List (Composite GraphQLPayload)) :=
  (federation.servers.zip sdls).mapM fun x => x.1.composite x.2

theorem length_of_composite (h : federation.composite sdls = .ok c) :
    federation.servers.length = sdls.length := by
  unfold composite at h
  simp only [] at h
  split_ifs at h with hempty hlength hlength
  · cases h
  · cases h
  · cases h
  · exact not_not.1 hlength

/-- The members of a federation decide what its composite is. -/
theorem composite_eq_members (h : federation.composite sdls = .ok c)
    (hroots : ∀ x ∈ federation.servers.zip sdls, x.1.NamesNoRoots x.2)
    (hprints : ∀ x ∈ federation.servers.zip sdls, x.1.PrintsFaithfully x.2) :
    ∃ members : List Member,
      let composed := joined (members.map (·.document))
      let fields := FieldConfig.merge [] (members.flatMap (·.fields))
      (∀ m ∈ members, m.IsMade federation.scope composed) ∧
      members.map (fun m => (m.server, m.sdl)) = federation.servers.zip sdls ∧
      compose (members.map (·.document.print)) = .ok composed.print ∧
      parseSchema composed.print = .ok composed ∧
      c = .make (federation.scope.applyToDocument composed).print (members.map (·.source))
        (federation.scope.applyToFieldConfigs fields composed)
        (federation.scope.typeMappings composed) [] := by
  obtain ⟨prepared, schema, document, sources, fields, moved, hprepared, hlength, hschema,
    hdocument, hsources, hmoved, rfl⟩ := composite_eq_ok h
  obtain ⟨members, hmade, hservers, rfl, rfl, rfl⟩ :=
    exists_members (mapM_eq_ok.1 hprepared) hlength hsources hroots hprints
  have hcomposable := isComposable_of_isMade hmade
  have hreads : List.Forall₂ (fun schema document => parseSchema schema = .ok document)
      ((members.map (·.prepared)).map (·.exposed)) (members.map (·.document)) := by
    rw [List.map_map]
    exact forall₂_map_map.2 fun m hm => (hmade m hm).reads
  -- The composed schema is read twice, once to merge it and once to move it.
  obtain ⟨once, honce, rfl⟩ := compose_eq_ok hreads hschema
  obtain rfl :=
    Document.eq_of_parseSchema_print (isComposable_joined hcomposable).readsBack honce
  obtain rfl := Except.ok.inj (honce.symm.trans hdocument)
  obtain rfl := Except.ok.inj ((Namespace.applyToSchema_print honce).symm.trans hmoved)
  refine ⟨members, hmade, hservers, ?_, honce, rfl⟩
  rw [← hschema, List.map_map]
  exact congrArg compose (List.map_congr_left fun m hm => (hmade m hm).exposed.symm)

/-- A field is configured by a federation if one of its members alone configures it. -/
theorem mem_configured_iff {members : List Member}
    (hmade : ∀ m ∈ members, m.IsMade ns (joined (members.map (·.document)))) {x : Coordinate} :
    x ∈ (ns.applyToFieldConfigs (FieldConfig.merge [] (members.flatMap (·.fields)))
        (joined (members.map (·.document)))).map (·.coordinate) ↔
      ∃ m ∈ members, x ∈ (m.alone ns).configuredFields := by
  have hcomposable := isComposable_of_isMade hmade
  -- A field moves alike in both documents, which have the same roots as far as it is concerned.
  have hmoves : ∀ m ∈ members, ∀ field, (field ∈ m.fields.map (·.coordinate) ∨
      field ∈ Namespace.rootFields (.ofDocument m.document) m.document) →
        (ns.moves (.ofDocument (joined (members.map (·.document))))).coordinate field =
          (ns.moves (.ofDocument m.document)).coordinate field := fun m hm field hfield =>
    Namespace.coordinate_moves_congr (sharesRoots hcomposable (List.mem_map_of_mem hm))
      ((hmade m hm).declared hfield)
  have hmerged : ∀ field, field ∈ (FieldConfig.merge [] (members.flatMap (·.fields))).map
      (·.coordinate) ↔ ∃ m ∈ members, field ∈ m.fields.map (·.coordinate) := by
    intro field
    rw [FieldConfig.coordinates_merge_nil, List.mem_eraseDups, List.map_flatMap, List.mem_flatMap]
  have hroots : ∀ field, field ∈ Namespace.rootFields
      (.ofDocument (joined (members.map (·.document)))) (joined (members.map (·.document))) ↔
        ∃ m ∈ members, field ∈ Namespace.rootFields (.ofDocument m.document) m.document := by
    intro field
    simp only [mem_rootFields_joined hcomposable, List.mem_map, exists_exists_and_eq_and]
  simp only [Member.alone, Composite.make, Composite.configuredFields,
    Namespace.mem_applyToFieldConfigs_iff, hmerged, hroots]
  constructor
  · rintro ⟨field, rfl, ⟨m, hm, hfield⟩ | ⟨⟨m, hm, hfield⟩, hq⟩⟩
    · exact ⟨m, hm, field, (hmoves m hm field (.inl hfield)).symm, .inl hfield⟩
    · exact ⟨m, hm, field, (hmoves m hm field (.inr hfield)).symm, .inr ⟨hfield, hq⟩⟩
  · rintro ⟨m, hm, field, rfl, hfield | ⟨hfield, hq⟩⟩
    · exact ⟨field, hmoves m hm field (.inl hfield), .inl ⟨m, hm, hfield⟩⟩
    · exact ⟨field, hmoves m hm field (.inr hfield), .inr ⟨⟨m, hm, hfield⟩, hq⟩⟩

theorem scope_of_mem {server : GraphQLBackend} (h : server ∈ federation.servers) :
    server.scope = federation.scope := by
  obtain ⟨subgraph, -, rfl⟩ := List.mem_map.1 h
  rfl

/-- **A federation agrees with its servers alone.** -/
theorem agrees_with_servers (federation : Federation) (sdls : List String)
    (c : Composite GraphQLPayload) (hc : federation.composite sdls = .ok c)
    (hroots : ∀ x ∈ federation.servers.zip sdls, x.1.NamesNoRoots x.2)
    (hprints : ∀ x ∈ federation.servers.zip sdls, x.1.PrintsFaithfully x.2) :
    ∃ documents alones schema,
      federation.servers.length = sdls.length ∧
      federation.shown sdls = .ok documents ∧
      federation.alone sdls = .ok alones ∧
      List.Forall₂ (fun source alone => alone.dataSources = [source]) c.dataSources alones ∧
      compose (documents.map Document.print) = .ok schema ∧
      parseSchema schema = .ok ⟨distinct (documents.flatMap (·.definitions))⟩ ∧
      federation.scope.applyToSchema schema = .ok c.schema ∧
      c.configuredFields.Nodup ∧
      (∀ field, field ∈ c.configuredFields ↔ ∃ alone ∈ alones, field ∈ alone.configuredFields) ∧
      ∀ server sdl document, federation.servers = [server] → sdls = [sdl] →
        server.shown sdl = .ok document → document.definitions.Nodup →
          server.composite sdl = .ok c := by
  obtain ⟨members, hmade, hservers, hcompose, hread, rfl⟩ :=
    composite_eq_members hc hroots hprints
  have hcomposable := isComposable_of_isMade hmade
  have halone : ∀ m ∈ members, m.server.composite m.sdl = .ok (m.alone federation.scope) := by
    intro m hm
    have hmem : (m.server, m.sdl) ∈ federation.servers.zip sdls :=
      hservers ▸ List.mem_map_of_mem hm
    exact (hmade m hm).composite_eq (sharesRoots hcomposable (List.mem_map_of_mem hm))
      (scope_of_mem (List.of_mem_zip hmem).1)
  refine ⟨members.map (·.document), members.map (·.alone federation.scope), _,
    length_of_composite hc, ?_, ?_, ?_, ?_, hread, Namespace.applyToSchema_print hread, ?_,
    fun field => ?_, ?_⟩
  · rw [shown, ← hservers]
    exact mapM_eq_ok.2 (forall₂_map_map.2 fun m hm => (hmade m hm).shown)
  · rw [alone, ← hservers]
    exact mapM_eq_ok.2 (forall₂_map_map.2 halone)
  · exact forall₂_map_map.2 fun _ _ => rfl
  · rw [List.map_map]
    exact hcompose
  · refine Namespace.nodup_applyToFieldConfigs
      (Namespace.moves_coordinate_injective rfl (isComposable_joined hcomposable).conventional) ?_
    rw [FieldConfig.coordinates_merge_nil]
    exact nodup_eraseDups _
  · simp only [List.mem_map, exists_exists_and_eq_and]
    exact mem_configured_iff hmade
  · -- A single member shares no definition with another one, so nothing is merged away.
    rintro server sdl document hserver rfl hshown hnodup
    rw [hserver] at hservers
    obtain ⟨m, rfl, hm⟩ := List.map_eq_singleton_iff.1 hservers
    obtain ⟨rfl, rfl⟩ := Prod.mk.injEq .. ▸ hm
    have hm := hmade m (List.mem_singleton_self m)
    obtain rfl := Except.ok.inj (hm.shown.symm.trans hshown)
    rw [halone m (List.mem_singleton_self m), Member.alone]
    simp only [List.map_singleton, List.flatMap_singleton, hm.joined_eq hnodup, hm.merge_eq]

/-- Both servers show the user, and only the first one finds users by their ids. -/
def sharedSdls : List String :=
  ["type Query\x7bme(id:ID):User\x7dtype User\x7bid:ID\x7d",
    "type Query\x7bme:User\x7dtype User\x7bid:ID\x7d"]

/-- The type of the users is composed once, and the field is configured once. -/
theorem agrees_with_servers_shop :
    ∃ c documents alones, shop.composite sharedSdls = .ok c ∧
      shop.shown sharedSdls = .ok documents ∧
      shop.alone sharedSdls = .ok alones ∧
      List.Forall₂ (fun source alone => alone.dataSources = [source]) c.dataSources alones ∧
      (documents.flatMap (·.definitions)).length = 4 ∧
      (distinct (documents.flatMap (·.definitions))).length = 3 ∧
      c.configuredFields.Nodup ∧ ⟨"Query", "ns_me"⟩ ∈ c.configuredFields := by
  obtain ⟨c, hc⟩ : ∃ c, c ∈ (shop.composite sharedSdls).toOption :=
    Option.isSome_iff_exists.1 (by decide +kernel)
  have hcounts : ∀ documents ∈ (shop.shown sharedSdls).toOption,
      (documents.flatMap (·.definitions)).length = 4 ∧
        (distinct (documents.flatMap (·.definitions))).length = 3 := by
    decide +kernel
  have hconfigured : ∀ alones ∈ (shop.alone sharedSdls).toOption,
      ∃ alone ∈ alones, ⟨"Query", "ns_me"⟩ ∈ alone.configuredFields := by
    decide +kernel
  obtain ⟨documents, alones, schema, -, hdocuments, halones, hsources, -, -, -, hnodup, hmem, -⟩ :=
    agrees_with_servers shop sharedSdls c (mem_toOption.1 hc) (by decide +kernel)
      (by decide +kernel)
  obtain ⟨hall, hkept⟩ := hcounts documents (mem_toOption.2 hdocuments)
  exact ⟨c, documents, alones, mem_toOption.1 hc, hdocuments, halones, hsources, hall, hkept,
    hnodup, (hmem _).2 (hconfigured alones (mem_toOption.2 halones))⟩

end Federation

end Supergraph
