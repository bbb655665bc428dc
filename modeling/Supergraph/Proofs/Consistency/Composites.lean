import Supergraph.Backend.Federation
import Supergraph.Backend.OpenApi
import Supergraph.Proofs.Consistency.Namespaces
import Supergraph.Proofs.Consistency.Renames

/-!
# Composites of backends

How the composite of a backend is made decides whether it is consistent: the nodes and
configurations that are derived from a schema fit to it, and so do those of several servers to their
schemas put together, since a definition is only left out if another one is printed alike. Then the
parts are moved into a namespace each on its own, and they still fit together unless a field is
captured (`Namespace.Decides`).

What a text is read as only counts for the fields it declares, and each result names the documents
whose printed forms are read on the way.
-/

namespace Supergraph

/-! ## Composites in a namespace -/

/-- A namespace decides over a composite made from `document`: if no field is captured, the
composite stays consistent; if a field is that is not external and does not look as if it had been
moved, the composite is not consistent. -/
structure Namespace.Decides {α : Type} (ns : Namespace) (document : Document)
    (composite : Composite α) : Prop where
  stays : ns.Unambiguous document → composite.StaysConsistent
  breaks : ∀ o ∈ document.occurrences, ¬ o.field.isExternal →
    ns.IsCaptured (.ofDocument document) o.coordinate → ¬ ns.IsQualified o.field.name →
      ¬ composite.Consistent

/-- A composite whose parts are moved from a document that they fit to. -/
theorem Namespace.decides {α : Type} {ns : Namespace} {composite : Composite α} {schema : String}
    {document : Document} {nodes : List Coordinate} {configs : List FieldConfig}
    (hdocument : parseSchema schema = .ok document)
    (hagrees : document.Agrees nodes (configs.map (·.coordinate)))
    (hschema : ns.applyToSchema schema = .ok composite.schema)
    (hnodes : composite.nodeFields = nodes.map (ns.moves (.ofDocument document)).coordinate)
    (hfields : composite.fields = ns.applyToFieldConfigs configs document)
    (hreads : ¬ ns.isEmpty → (ns.applyToDocument document).ReadsBack) :
    ns.Decides document composite := by
  obtain ⟨other, hother, hdeclares⟩ := view_of_applyToSchema hdocument hschema hreads
  constructor
  · intro hunambiguous
    refine Composite.Consistent.stays ⟨other, hother, ?_⟩
    rw [hnodes, Composite.configuredFields, hfields]
    exact agrees_of_declares hagrees hdeclares hunambiguous
  · rintro o ho hown hcaptured hplain ⟨read, hread, h⟩
    obtain rfl := Except.ok.inj (hother.symm.trans hread)
    exact not_agrees_of_isCaptured hagrees hdeclares ho hown hcaptured hplain (hnodes ▸ h)

/-! ## GraphQL servers -/

namespace GraphQLBackend

variable {backend : GraphQLBackend}

/-- The schema of a server as the gateway shows it, before namespacing. -/
def document (backend : GraphQLBackend) (sdl : String) : Except Error Document := do
  parseSchema (← backend.prepare sdl).exposed

/-- The nodes and configurations of a server fit to its schema, before the nodes are moved. -/
theorem agrees_of_dataSource {prepared : PreparedSchema} {ns : Namespace} {composed : Document}
    {source : DataSource GraphQLPayload} {fields : List FieldConfig}
    (h : backend.dataSource prepared ns composed = .ok (source, fields)) :
    ∃ document nodes, parseSchema prepared.exposed = .ok document ∧
      document.Agrees nodes (fields.map (·.coordinate)) ∧
      source.nodeFields = nodes.map (ns.moves (.ofDocument composed)).coordinate := by
  obtain ⟨document, hdocument, h⟩ := bind_eq_ok.1 h
  obtain ⟨classification, hclassification, h⟩ := bind_eq_ok.1 h
  obtain ⟨fetch, -, h⟩ := bind_eq_ok.1 h
  obtain ⟨rfl, rfl⟩ := Prod.mk.injEq .. ▸ Except.ok.inj h
  have hservice : (if backend.isFederation then some document else none).getD document =
      document := by
    split_ifs <;> rfl
  have hagrees := agrees_of_classify hclassification
  rw [hservice] at hagrees
  refine ⟨document, _, hdocument, hagrees, ?_⟩
  rw [List.map_append, ← NodeList.coordinates_map_node, ← NodeList.coordinates_map_node]
  rfl

theorem decides_composite {sdl : String} {c : Composite GraphQLPayload}
    (hc : backend.composite sdl = .ok c) :
    ∃ document, backend.document sdl = .ok document ∧
      ((¬ backend.scope.isEmpty → (backend.scope.applyToDocument document).ReadsBack) →
        backend.scope.Decides document c) := by
  obtain ⟨prepared, hprepared, hc⟩ := bind_eq_ok.1 hc
  obtain ⟨document, hdocument, hc⟩ := bind_eq_ok.1 hc
  obtain ⟨⟨source, fields⟩, hsource, hc⟩ := bind_eq_ok.1 hc
  obtain ⟨schema, hschema, hc⟩ := bind_eq_ok.1 hc
  obtain rfl := Except.ok.inj hc
  obtain ⟨own, nodes, hown, hagrees, hnodes⟩ := agrees_of_dataSource hsource
  obtain rfl := Except.ok.inj (hdocument.symm.trans hown)
  refine ⟨document, bind_eq_ok.2 ⟨prepared, hprepared, hdocument⟩, fun hreads => ?_⟩
  refine Namespace.decides hdocument hagrees hschema ?_ rfl hreads
  rw [← hnodes]
  exact List.append_nil _

end GraphQLBackend

/-! ## Federations -/

namespace FieldConfig

theorem coordinate_mem_update {field : Coordinate} {change : FieldConfig → FieldConfig}
    (hchange : ∀ config, (change config).coordinate = config.coordinate)
    {configs : List FieldConfig} {x : Coordinate}
    (h : x ∈ (update field change configs).map (·.coordinate)) :
    x ∈ configs.map (·.coordinate) ∨ x = field := by
  induction configs with
  | nil =>
    have hblank : (change (blank field)).coordinate = field := hchange _
    exact .inr (by simpa [update, hblank] using h)
  | cons config rest ih =>
    rw [update] at h
    split_ifs at h
    · exact .inl (by simpa [hchange] using h)
    · rcases List.mem_cons.1 h with rfl | h
      · exact .inl List.mem_cons_self
      · exact (ih h).imp_left (List.mem_cons_of_mem _)

theorem coordinate_mem_merge {configs others : List FieldConfig} {x : Coordinate}
    (h : x ∈ (merge configs others).map (·.coordinate)) :
    x ∈ configs.map (·.coordinate) ∨ x ∈ others.map (·.coordinate) := by
  induction others generalizing configs with
  | nil => exact .inl h
  | cons other rest ih =>
    rcases ih h with h | h
    · exact (coordinate_mem_update (coordinate_absorb other) h).imp_right fun e => by simp [e]
    · exact .inr (List.mem_cons_of_mem _ h)

end FieldConfig

namespace Federation

variable {federation : Federation}

/-- One document behind the other. -/
def concat (documents : List Document) : Document := ⟨documents.flatMap (·.definitions)⟩

/-- The nodes and configurations of all servers fit to all their schemas together. -/
theorem agrees_of_dataSources {ns : Namespace} {composed : Document}
    {servers : List (GraphQLBackend × PreparedSchema)} {before fields : List FieldConfig}
    {sources : List (DataSource GraphQLPayload)}
    (h : dataSources ns composed servers before = .ok (sources, fields)) :
    ∃ documents nodes configured,
      List.Forall₂ (fun server document => parseSchema server.2.exposed = .ok document)
        servers documents ∧
      (concat documents).Agrees nodes configured ∧
      sources.flatMap DataSource.nodeFields =
        nodes.map (ns.moves (.ofDocument composed)).coordinate ∧
      ∀ x ∈ fields.map (·.coordinate), x ∈ before.map (·.coordinate) ∨ x ∈ configured := by
  induction servers generalizing before sources with
  | nil =>
    obtain ⟨rfl, rfl⟩ := Prod.mk.injEq .. ▸ Except.ok.inj h
    exact ⟨[], [], [], .nil, by decide, rfl, fun x hx => .inl hx⟩
  | cons server rest ih =>
    obtain ⟨⟨source, own⟩, hsource, h⟩ := bind_eq_ok.1 h
    obtain ⟨⟨others, merged⟩, hothers, h⟩ := bind_eq_ok.1 h
    obtain ⟨rfl, rfl⟩ := Prod.mk.injEq .. ▸ Except.ok.inj h
    obtain ⟨document, nodes, hdocument, hagrees, hnodes⟩ :=
      GraphQLBackend.agrees_of_dataSource hsource
    obtain ⟨documents, more, configured, hdocuments, hrest, hmore, hconfigured⟩ := ih hothers
    refine ⟨document :: documents, nodes ++ more, own.map (·.coordinate) ++ configured,
      .cons hdocument hdocuments, hagrees.append hrest, ?_, fun x hx => ?_⟩
    · rw [List.flatMap_cons, hnodes, hmore, List.map_append]
    · rcases hconfigured x hx with h | h
      · exact (FieldConfig.coordinate_mem_merge h).imp_right (List.mem_append_left _)
      · exact .inr (List.mem_append_right _ h)

/-! ### Repeated definitions -/

theorem mem_appendNew {α : Type} [DecidableEq α] {items more : List α} {x : α} :
    x ∈ appendNew items more ↔ x ∈ items ∨ x ∈ more := by
  induction more generalizing items with
  | nil => simp [appendNew]
  | cons item more ih =>
    rw [appendNew, List.foldl_cons, ← appendNew, ih, List.mem_cons]
    split_ifs with h
    · have hitem : x = item → x ∈ items := fun e => e ▸ List.contains_iff_mem.1 h
      tauto
    · rw [List.mem_append, List.mem_singleton, or_assoc]

/-- The definitions without those that have the printed form of an earlier one. -/
def distinct (definitions : List Definition) : List Definition :=
  definitions.foldl (fun kept definition =>
    if (kept.map Definition.print).contains definition.print then kept
    else kept ++ [definition]) []

theorem distinct_concat (definitions : List Definition) (last : Definition) :
    distinct (definitions ++ [last]) =
      if ((distinct definitions).map Definition.print).contains last.print then distinct definitions
      else distinct definitions ++ [last] := by
  rw [distinct, List.foldl_append, ← distinct, List.foldl_cons, List.foldl_nil]

theorem map_print_distinct (definitions : List Definition) :
    (distinct definitions).map Definition.print =
      appendNew [] (definitions.map Definition.print) := by
  induction definitions using List.reverseRecOn with
  | nil => rfl
  | append_singleton definitions last ih =>
    have happend : ∀ printed : List String, appendNew [] (printed ++ [last.print]) =
        if (appendNew [] printed).contains last.print then appendNew [] printed
        else appendNew [] printed ++ [last.print] := by
      intro printed
      rw [appendNew, List.foldl_append]
      rfl
    rw [List.map_append, List.map_singleton, happend, distinct_concat, ← ih]
    split_ifs
    · rfl
    · rw [List.map_append, List.map_singleton]

theorem mem_of_mem_distinct {definitions : List Definition} {definition : Definition}
    (h : definition ∈ distinct definitions) : definition ∈ definitions := by
  induction definitions using List.reverseRecOn with
  | nil => exact h
  | append_singleton definitions last ih =>
    rw [distinct_concat] at h
    split_ifs at h
    · exact List.mem_append_left _ (ih h)
    · exact List.mem_append.2 ((List.mem_append.1 h).imp_left ih)

theorem exists_mem_distinct {definitions : List Definition} {definition : Definition}
    (h : definition ∈ definitions) :
    ∃ kept ∈ distinct definitions, kept.print = definition.print := by
  have hprinted : definition.print ∈ (distinct definitions).map Definition.print := by
    rw [map_print_distinct, mem_appendNew]
    exact .inr (List.mem_map_of_mem h)
  exact List.mem_map.1 hprinted

/-- Definitions that are printed alike look the same if both read back. -/
theorem view_congr {β : Type} {view : Document → β} {a b : Definition}
    (ha : (Document.mk [a]).ReadsBackAs view) (hb : (Document.mk [b]).ReadsBackAs view)
    (h : a.print = b.print) : view ⟨[a]⟩ = view ⟨[b]⟩ := by
  have hprint : (Document.mk [a]).print = (Document.mk [b]).print := by
    rw [Document.print, Document.print, List.map_singleton, List.map_singleton, h]
  rw [Document.ReadsBackAs, hprint, hb] at ha
  exact (Option.some.inj ha).symm

/-- Leaving out repeated definitions leaves one that looks the same. -/
theorem exists_mem_distinct_view {β : Type} {view : Document → β} {definitions : List Definition}
    (hreads : ∀ definition ∈ definitions, (Document.mk [definition]).ReadsBackAs view)
    {definition : Definition} (h : definition ∈ definitions) :
    ∃ kept ∈ distinct definitions, view ⟨[kept]⟩ = view ⟨[definition]⟩ := by
  obtain ⟨kept, hkept, hprint⟩ := exists_mem_distinct h
  have hmem := mem_of_mem_distinct hkept
  exact ⟨kept, hkept, view_congr (hreads kept hmem) (hreads definition h) hprint⟩

/-- Leaving out repeated definitions leaves out no declared fields. -/
theorem mem_declares_distinct {definitions : List Definition}
    (hreads : ∀ definition ∈ definitions, (Document.mk [definition]).ReadsBack)
    {x : Coordinate × Bool} :
    x ∈ (Document.mk (distinct definitions)).declares ↔ x ∈ (Document.mk definitions).declares := by
  rw [Document.declares_mk, Document.declares_mk, List.mem_flatMap, List.mem_flatMap]
  constructor
  · rintro ⟨definition, h, hx⟩
    exact ⟨definition, mem_of_mem_distinct h, hx⟩
  · rintro ⟨definition, h, hx⟩
    obtain ⟨kept, hkept, hsame⟩ := exists_mem_distinct_view hreads h
    exact ⟨kept, hkept, hsame ▸ hx⟩

/-! ### The composed schema -/

/-- The namespace that all servers share. -/
def scope (federation : Federation) : Namespace := .ofName federation.apiNamespace []

/-- The schemas of the servers as the gateway shows them. -/
def documents (federation : Federation) (sdls : List String) : Except Error (List Document) := do
  let prepared ← (federation.servers.zip sdls).mapM fun (server, sdl) => server.prepare sdl
  prepared.mapM fun prepared => parseSchema prepared.exposed

/-- The schemas of all servers together. -/
def joined (documents : List Document) : Document :=
  ⟨distinct (concat documents).definitions⟩

/-- The composed schema before namespacing. It is printed and read twice. -/
def composed (documents : List Document) : Except Error Document := do
  parseSchema (← parseSchema (joined documents).print).print

/-- Whether all documents that are printed to compose `documents` read back. -/
structure ReadBack (documents : List Document) : Prop where
  definition : ∀ definition ∈ (concat documents).definitions, (Document.mk [definition]).ReadsBack
  joined : (joined documents).ReadsBack
  again : ∀ document ∈ (parseSchema (Federation.joined documents).print).toOption,
    document.ReadsBack

instance (documents : List Document) : Decidable (ReadBack documents) :=
  decidable_of_iff
    ((∀ definition ∈ (concat documents).definitions, (Document.mk [definition]).ReadsBack) ∧
      (joined documents).ReadsBack ∧
        ∀ document ∈ (parseSchema (joined documents).print).toOption, document.ReadsBack)
    ⟨fun ⟨hdefinition, hjoined, hagain⟩ => ⟨hdefinition, hjoined, hagain⟩,
      fun h => ⟨h.definition, h.joined, h.again⟩⟩

/-- Whether all documents that are printed to compose `documents` read back and look the same in
`view`. -/
structure ReadBackAs {β : Type} (view : Document → β) (documents : List Document) : Prop where
  definition : ∀ definition ∈ (concat documents).definitions,
    (Document.mk [definition]).ReadsBackAs view
  joined : (joined documents).ReadsBackAs view
  again : ∀ document ∈ (parseSchema (Federation.joined documents).print).toOption,
    document.ReadsBackAs view

instance {β : Type} [DecidableEq β] (view : Document → β) : DecidablePred (ReadBackAs view) :=
  fun documents => decidable_of_iff
    ((∀ definition ∈ (concat documents).definitions, (Document.mk [definition]).ReadsBackAs view) ∧
      (joined documents).ReadsBackAs view ∧
        ∀ document ∈ (parseSchema (joined documents).print).toOption, document.ReadsBackAs view)
    ⟨fun ⟨hdefinition, hjoined, hagain⟩ => ⟨hdefinition, hjoined, hagain⟩,
      fun h => ⟨h.definition, h.joined, h.again⟩⟩

theorem readBack_iff {documents : List Document} :
    ReadBack documents ↔ ReadBackAs Document.declares documents :=
  ⟨fun ⟨hdefinition, hjoined, hagain⟩ => ⟨hdefinition, hjoined, hagain⟩,
    fun ⟨hdefinition, hjoined, hagain⟩ => ⟨hdefinition, hjoined, hagain⟩⟩

theorem view_composed {β : Type} {view : Document → β} {documents : List Document}
    {document : Document} (hreads : ReadBackAs view documents)
    (h : composed documents = .ok document) : view document = view (joined documents) := by
  obtain ⟨once, honce, h⟩ := bind_eq_ok.1 h
  obtain ⟨read, hread, hview⟩ := Document.readsBackAs_iff.1 hreads.joined
  obtain rfl := Except.ok.inj (honce.symm.trans hread)
  obtain ⟨read, hread, hagain⟩ :=
    Document.readsBackAs_iff.1 (hreads.again once (mem_toOption.2 honce))
  obtain rfl := Except.ok.inj (h.symm.trans hread)
  exact hagain.trans hview

theorem mem_declares_composed {documents : List Document} {document : Document}
    (hreads : ReadBack documents) (h : composed documents = .ok document)
    (x : Coordinate × Bool) : x ∈ document.declares ↔ x ∈ (concat documents).declares := by
  rw [view_composed (readBack_iff.1 hreads) h, joined]
  exact mem_declares_distinct hreads.definition

theorem compose_eq_ok {schemas : List String} {documents : List Document} {schema : String}
    (hdocuments : List.Forall₂ (fun schema document => parseSchema schema = .ok document)
      schemas documents) (h : compose schemas = .ok schema) :
    ∃ document, parseSchema (joined documents).print = .ok document ∧ document.print = schema := by
  obtain ⟨definitions, hdefinitions, h⟩ := bind_eq_ok.1 h
  have hprinted : schemas.mapM printedDefinitions =
      .ok (documents.map fun document => document.definitions.map Definition.print) := by
    rw [mapM_eq_ok, List.forall₂_map_right_iff]
    refine hdocuments.imp fun schema document h => ?_
    rw [printedDefinitions, h]
    rfl
  obtain rfl := Except.ok.inj (hdefinitions.symm.trans hprinted)
  have htext : String.intercalate "\n" (appendNew []
      (documents.map fun document => document.definitions.map Definition.print).flatten) =
        (joined documents).print := by
    rw [joined, Document.print, map_print_distinct, concat, List.map_flatMap, List.flatMap_def]
  rw [htext] at h
  exact map_eq_ok.1 h

/-- The steps on the way to a composite. -/
theorem composite_eq_ok {sdls : List String} {c : Composite GraphQLPayload}
    (h : federation.composite sdls = .ok c) :
    ∃ prepared schema document sources fields moved,
      (federation.servers.zip sdls).mapM (fun (server, sdl) => server.prepare sdl) = .ok prepared ∧
      prepared.length = federation.servers.length ∧
      compose (prepared.map (·.exposed)) = .ok schema ∧
      parseSchema schema = .ok document ∧
      dataSources federation.scope document (federation.servers.zip prepared) [] =
        .ok (sources, fields) ∧
      federation.scope.applyToSchema schema = .ok moved ∧
      c = .make moved sources (federation.scope.applyToFieldConfigs fields document)
        (federation.scope.typeMappings document) [] := by
  unfold composite at h
  simp only [] at h
  split_ifs at h with hempty hlength hlength
  · cases h
  · cases h
  · cases h
  · obtain ⟨prepared, hprepared, h⟩ := bind_eq_ok.1 h
    obtain ⟨schema, hschema, h⟩ := bind_eq_ok.1 h
    obtain ⟨document, hdocument, h⟩ := bind_eq_ok.1 h
    obtain ⟨⟨sources, fields⟩, hsources, h⟩ := bind_eq_ok.1 h
    obtain ⟨moved, hmoved, h⟩ := bind_eq_ok.1 h
    have hall := (mapM_eq_ok.1 hprepared).length_eq
    rw [List.length_zip, ← not_not.1 hlength, Nat.min_self] at hall
    exact ⟨prepared, schema, document, sources, fields, moved, hprepared, hall.symm, hschema,
      hdocument, hsources, hmoved, (Except.ok.inj h).symm⟩

/-- The documents on the way to a composite, and what fits to them. -/
theorem exists_documents {sdls : List String} {c : Composite GraphQLPayload}
    (hc : federation.composite sdls = .ok c) :
    ∃ documents document schema nodes configured fields,
      federation.documents sdls = .ok documents ∧
      composed documents = .ok document ∧
      parseSchema schema = .ok document ∧
      federation.scope.applyToSchema schema = .ok c.schema ∧
      (concat documents).Agrees nodes configured ∧
      c.nodeFields = nodes.map (federation.scope.moves (.ofDocument document)).coordinate ∧
      c.fields = federation.scope.applyToFieldConfigs fields document ∧
      ∀ x ∈ fields.map (·.coordinate), x ∈ configured := by
  obtain ⟨prepared, schema, document, sources, fields, moved, hprepared, hlength, hschema,
    hdocument, hsources, hmoved, rfl⟩ := composite_eq_ok hc
  obtain ⟨documents, nodes, configured, hdocuments, hagrees, hnodes, hconfigured⟩ :=
    agrees_of_dataSources hsources
  have hread : List.Forall₂ (fun prepared document => parseSchema prepared.exposed = .ok document)
      prepared documents := by
    rw [← List.map_snd_zip hlength.le, List.forall₂_map_left_iff]
    exact hdocuments
  -- The composed text is the print of what the printed definitions were read as.
  obtain ⟨once, honce, rfl⟩ := compose_eq_ok (List.forall₂_map_left_iff.2 hread) hschema
  have hall : federation.documents sdls = .ok documents :=
    bind_eq_ok.2 ⟨prepared, hprepared, mapM_eq_ok.2 hread⟩
  have hcomposed : composed documents = .ok document := bind_eq_ok.2 ⟨once, honce, hdocument⟩
  exact ⟨documents, document, once.print, nodes, configured, fields, hall, hcomposed, hdocument,
    hmoved, hagrees, hnodes, rfl, fun x hx => (hconfigured x hx).resolve_left List.not_mem_nil⟩

theorem decides_composite {sdls : List String} {c : Composite GraphQLPayload}
    (hc : federation.composite sdls = .ok c) :
    ∃ documents document, federation.documents sdls = .ok documents ∧
      composed documents = .ok document ∧
      (ReadBack documents →
        (¬ federation.scope.isEmpty → (federation.scope.applyToDocument document).ReadsBack) →
        federation.scope.Decides document c) := by
  obtain ⟨documents, document, schema, nodes, configured, fields, hdocuments, hcomposed, hdocument,
    hmoved, hagrees, hnodes, hfields, hconfigured⟩ := exists_documents hc
  refine ⟨documents, document, hdocuments, hcomposed, fun hreads hback => ?_⟩
  have hagrees : document.Agrees nodes (fields.map (·.coordinate)) :=
    (hagrees.congr (mem_declares_composed hreads hcomposed)).mono_configured hconfigured
  exact Namespace.decides hdocument hagrees hmoved hnodes hfields hback

end Federation

/-! ## REST services -/

theorem OpenApiBackend.decides_namespaced {backend : OpenApiBackend}
    {converted c : Composite RestPayload} (h : converted.Consistent)
    (hc : backend.namespaced converted = .ok c) :
    ∃ document, parseSchema converted.schema = .ok document ∧
      ((¬ backend.scope.isEmpty → (backend.scope.applyToDocument document).ReadsBack) →
        backend.scope.Decides document c) := by
  obtain ⟨document, hdocument, hagrees⟩ := h
  refine ⟨document, hdocument, fun hreads => ?_⟩
  unfold namespaced at hc
  simp only [] at hc
  split_ifs at hc with hempty
  · -- Without a namespace the composite is left as it is, and no field is captured.
    obtain rfl := Except.ok.inj hc
    refine ⟨fun _ => Composite.Consistent.stays ⟨document, hdocument, hagrees⟩, ?_⟩
    rintro o - - ⟨htype, -⟩
    obtain ⟨p, hp⟩ := Namespace.exists_name htype
    rw [Namespace.isEmpty_eq_false hp] at hempty
    exact absurd hempty Bool.false_ne_true
  · obtain ⟨read, hread, hc⟩ := bind_eq_ok.1 hc
    obtain rfl := Except.ok.inj (hdocument.symm.trans hread)
    obtain ⟨schema, hschema, hc⟩ := bind_eq_ok.1 hc
    obtain rfl := Except.ok.inj hc
    exact Namespace.decides hdocument hagrees hschema
      (Composite.nodeFields_mapNodes (backend.scope.moves _) converted.dataSources) rfl hreads

end Supergraph
