import Supergraph.Composite
import Supergraph.Proofs.Renaming
import Supergraph.Proofs.Results

/-!
# Consistent composites

The schema of a composite, its nodes and its field configurations name the same fields, but each
part is changed by functions of its own. A composite is *consistent* if its parts still fit
together: nodes and configurations name fields that the schema declares, and every field that some
declaration does not mark as external is a node.

Consistency only depends on the fields that the schema declares (`Document.declares`) and on those
that the other parts name, so it survives whatever renames the fields of all parts alike
(`Agrees.map`). Every classification starts with it (`agrees_of_classify`).
-/

namespace Supergraph

namespace Document

/-- Whether the printed form of the document can be read and looks the same in `view`. -/
def ReadsBackAs {β : Type} (view : Document → β) (document : Document) : Prop :=
  (parseSchema document.print).toOption.map view = some (view document)

instance {β : Type} [DecidableEq β] (view : Document → β) : DecidablePred (ReadsBackAs view) :=
  fun _ => inferInstanceAs (Decidable (_ = _))

theorem readsBackAs_iff {β : Type} {view : Document → β} {document : Document} :
    document.ReadsBackAs view ↔
      ∃ read, parseSchema document.print = .ok read ∧ view read = view document := by
  rw [ReadsBackAs, Option.map_eq_some_iff]
  exact exists_congr fun read => and_congr_left' mem_toOption

/-- The fields that a document declares, each with whether the declaration marks it as external. -/
def declares (document : Document) : List (Coordinate × Bool) :=
  document.occurrences.map fun o => (o.coordinate, o.field.isExternal)

/-- Whether the printed form of the document can be read and declares the same fields. -/
def ReadsBack (document : Document) : Prop :=
  (parseSchema document.print).toOption.map declares = some document.declares

instance : DecidablePred ReadsBack := fun _ => inferInstanceAs (Decidable (_ = _))

/-- The fields called `nodes` and `configured` fit to a document: all of them are declared, and
every field with a declaration that is not external is among the nodes. -/
structure Agrees (document : Document) (nodes configured : List Coordinate) : Prop where
  nodeDeclared : ∀ field ∈ nodes, ∃ external, (field, external) ∈ document.declares
  configDeclared : ∀ field ∈ configured, ∃ external, (field, external) ∈ document.declares
  complete : ∀ x ∈ document.declares, x.2 = false → x.1 ∈ nodes

instance (document : Document) (nodes configured : List Coordinate) :
    Decidable (document.Agrees nodes configured) :=
  decidable_of_iff
    ((∀ field ∈ nodes, ∃ external, (field, external) ∈ document.declares) ∧
      (∀ field ∈ configured, ∃ external, (field, external) ∈ document.declares) ∧
        ∀ x ∈ document.declares, x.2 = false → x.1 ∈ nodes)
    ⟨fun ⟨hnodes, hconfigured, hcomplete⟩ => ⟨hnodes, hconfigured, hcomplete⟩,
      fun h => ⟨h.nodeDeclared, h.configDeclared, h.complete⟩⟩

end Document

/-! ## Composites -/

/-- The fields in the nodes of a data source. -/
def DataSource.nodeFields {α : Type} (source : DataSource α) : List Coordinate :=
  source.rootNodes.coordinates ++ source.childNodes.coordinates

namespace Composite

variable {α : Type} (composite : Composite α)

/-- The fields in the nodes of all data sources. -/
def nodeFields : List Coordinate := composite.dataSources.flatMap (·.nodeFields)

/-- The fields with a configuration. -/
def configuredFields : List Coordinate := composite.fields.map (·.coordinate)

/-- Whether the parts of the composite fit together. -/
def Consistent : Prop :=
  ∃ document, parseSchema composite.schema = .ok document ∧
    document.Agrees composite.nodeFields composite.configuredFields

end Composite

/-! ## Renamed fields -/

namespace Document

variable {document other : Document} {nodes configured : List Coordinate}

/-- Renaming all fields alike keeps the agreement. Fields may get the same name. -/
theorem Agrees.map (h : document.Agrees nodes configured) (f : Coordinate → Coordinate)
    (hdeclares : other.declares = document.declares.map (Prod.map f id)) :
    other.Agrees (nodes.map f) (configured.map f) := by
  have hdeclared : ∀ field, (∃ external, (field, external) ∈ document.declares) →
      ∃ external, (f field, external) ∈ other.declares := by
    rintro field ⟨external, hfield⟩
    exact ⟨external, hdeclares ▸ List.mem_map_of_mem (f := Prod.map f id) hfield⟩
  refine ⟨List.forall_mem_map.2 fun field hfield => ?_,
    List.forall_mem_map.2 fun field hfield => ?_, ?_⟩
  · exact hdeclared field (h.nodeDeclared field hfield)
  · exact hdeclared field (h.configDeclared field hfield)
  · rw [hdeclares, List.forall_mem_map]
    exact fun x hx hown => List.mem_map_of_mem (h.complete x hx hown)

/-- Only the declared fields of a document count. -/
theorem Agrees.congr (h : document.Agrees nodes configured)
    (hdeclares : ∀ x, x ∈ other.declares ↔ x ∈ document.declares) :
    other.Agrees nodes configured where
  nodeDeclared field hfield := by
    obtain ⟨external, h⟩ := h.nodeDeclared field hfield
    exact ⟨external, (hdeclares _).2 h⟩
  configDeclared field hfield := by
    obtain ⟨external, h⟩ := h.configDeclared field hfield
    exact ⟨external, (hdeclares _).2 h⟩
  complete x hx := h.complete x ((hdeclares x).1 hx)

theorem Agrees.append_configured {more : List Coordinate} (h : document.Agrees nodes configured)
    (hmore : ∀ field ∈ more, ∃ external, (field, external) ∈ document.declares) :
    document.Agrees nodes (configured ++ more) :=
  ⟨h.nodeDeclared, List.forall_mem_append.2 ⟨h.configDeclared, hmore⟩, h.complete⟩

theorem Agrees.mono_configured {fewer : List Coordinate} (h : document.Agrees nodes configured)
    (hfewer : ∀ field ∈ fewer, field ∈ configured) : document.Agrees nodes fewer :=
  ⟨h.nodeDeclared, fun field hfield => h.configDeclared field (hfewer field hfield), h.complete⟩

theorem declares_append (definitions more : List Definition) :
    declares ⟨definitions ++ more⟩ = declares ⟨definitions⟩ ++ declares ⟨more⟩ := by
  simp [declares, occurrences, containers]

theorem declares_mk (definitions : List Definition) :
    declares ⟨definitions⟩ = definitions.flatMap fun definition => declares ⟨[definition]⟩ := by
  induction definitions with
  | nil => rfl
  | cons definition rest ih =>
    rw [List.flatMap_cons, ← ih, ← declares_append, List.singleton_append]

/-- Documents put one behind the other fit to what fits to each of them. -/
theorem Agrees.append {more moreConfigured : List Coordinate}
    (h : document.Agrees nodes configured) (hother : other.Agrees more moreConfigured) :
    Document.Agrees ⟨document.definitions ++ other.definitions⟩ (nodes ++ more)
      (configured ++ moreConfigured) := by
  have hleft : ∀ field, (∃ external, (field, external) ∈ document.declares) →
      ∃ external, (field, external) ∈ document.declares ++ other.declares :=
    fun _ ⟨external, h⟩ => ⟨external, List.mem_append_left _ h⟩
  have hright : ∀ field, (∃ external, (field, external) ∈ other.declares) →
      ∃ external, (field, external) ∈ document.declares ++ other.declares :=
    fun _ ⟨external, h⟩ => ⟨external, List.mem_append_right _ h⟩
  refine ⟨?_, ?_, fun x hx hown => ?_⟩ <;> rw [declares_append] at *
  · exact List.forall_mem_append.2 ⟨fun field hf => hleft field (h.nodeDeclared field hf),
      fun field hf => hright field (hother.nodeDeclared field hf)⟩
  · exact List.forall_mem_append.2 ⟨fun field hf => hleft field (h.configDeclared field hf),
      fun field hf => hright field (hother.configDeclared field hf)⟩
  · rcases List.mem_append.1 hx with hx | hx
    · exact List.mem_append_left _ (h.complete x hx hown)
    · exact List.mem_append_right _ (hother.complete x hx hown)

end Document

theorem NodeList.coordinates_map_node (ρ : Renaming) (nodes : NodeList) :
    NodeList.coordinates (nodes.map ρ.node) = nodes.coordinates.map ρ.coordinate := by
  rw [coordinates, coordinates, List.flatMap_map, List.map_flatMap]
  refine List.flatMap_congr fun node _ => ?_
  rw [TypeFields.coordinates, TypeFields.coordinates, Renaming.node, List.map_map, List.map_map]
  rfl

theorem Composite.nodeFields_mapNodes {α : Type} (ρ : Renaming) (sources : List (DataSource α)) :
    (sources.map (·.mapNodes (·.map ρ.node))).flatMap DataSource.nodeFields =
      (sources.flatMap DataSource.nodeFields).map ρ.coordinate := by
  rw [List.flatMap_map, List.map_flatMap]
  refine List.flatMap_congr fun source _ => ?_
  simp only [DataSource.nodeFields, DataSource.mapNodes, NodeList.coordinates_map_node,
    List.map_append]

/-! ## Classifications -/

/-- A field that is no other service's is a root node or a child node. -/
theorem Occurrence.isRootNode_or_isChildNode (roots : RootTypes) {o : Occurrence}
    (h : ¬ o.field.isExternal) : o.IsRootNode roots ∨ o.IsChildNode roots := by
  by_cases hroot : o.container.name ∈ roots.names
  · exact .inl (.inl hroot)
  · by_cases hentity : o.container.isEntity
    · exact .inl (.inr ⟨hentity, h⟩)
    · exact .inr (.inl ⟨hroot, h, fun hboth => hentity hboth.2⟩)

theorem Document.mem_declares {document : Document} {field : Coordinate} {external : Bool} :
    (field, external) ∈ document.declares ↔
      ∃ o ∈ document.occurrences, o.coordinate = field ∧ o.field.isExternal = external := by
  simp [declares]

/-- The nodes and configurations that are derived from a document fit to it. -/
theorem agrees_of_classify {schema : Document} {service : Option Document}
    {retypings : List ArgumentRetyping} {c : Classification}
    (hc : classify schema service retypings = .ok c) :
    (service.getD schema).Agrees (c.rootNodes.coordinates ++ c.childNodes.coordinates)
      (c.fields.map (·.coordinate)) := by
  obtain ⟨-, rfl⟩ := classify_eq_ok.1 hc
  have hdeclared : ∀ (p : Occurrence → Prop) [DecidablePred p],
      ∀ field ∈ (service.getD schema).fieldsWith p,
        ∃ external, (field, external) ∈ (service.getD schema).declares := by
    intro p _ field hfield
    obtain ⟨o, ho, rfl⟩ := List.mem_map.1 hfield
    exact ⟨_, Document.mem_declares.2 ⟨o, (List.mem_filter.1 ho).1, rfl, rfl⟩⟩
  refine ⟨fun field hfield => ?_, List.forall_mem_map.2 (List.forall_mem_map.2 fun field h => ?_),
    List.forall_mem_map.2 fun o ho hown => ?_⟩
  · rcases List.mem_append.1 hfield with h | h
    · exact hdeclared _ field (NodeList.mem_coordinates_group.1 h)
    · exact hdeclared _ field (NodeList.mem_coordinates_group.1 h)
  · exact hdeclared _ field (List.mem_eraseDups.1 h)
  · have hmem : ∀ (p : Occurrence → Prop) [DecidablePred p], p o →
        o.coordinate ∈ (NodeList.group ((service.getD schema).fieldsWith p)).coordinates :=
      fun p _ hp => NodeList.mem_coordinates_group.2
        (List.mem_map_of_mem (List.mem_filter.2 ⟨ho, decide_eq_true hp⟩))
    -- A field of the service itself is a node of one kind at least.
    rcases o.isRootNode_or_isChildNode (.ofDocument _) (Bool.eq_false_iff.1 hown) with h | h
    · exact List.mem_append_left _ (hmem _ h)
    · exact List.mem_append_right _ (hmem _ h)

end Supergraph
