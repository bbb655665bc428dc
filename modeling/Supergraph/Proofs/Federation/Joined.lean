import Supergraph.Proofs.Federation.EntryPoints
import Supergraph.Proofs.Namespace.Configurations
import Supergraph.Proofs.Schema.Joining

/-!
# The schemas of a federation put together

If the definitions of all documents read back, leaving out those that are printed like an earlier
one leaves out no definition (`mem_joined`), and the documents put together can be put together with
others again (`isComposable_joined`).

Without `schema` definitions a type is a root type by its name. So a type that one document declares
is a root type of that document exactly if it is one of all documents together (`sharesRoots`), and
a namespace moves what comes from one document alike in view of either.
-/

namespace Supergraph

namespace Document

variable {own composed : Document} {name : String}

theorem declaredNames_mono (h : ∀ definition ∈ own.definitions, definition ∈ composed.definitions)
    (hname : name ∈ own.declaredNames) : name ∈ composed.declaredNames := by
  obtain ⟨definition, hdefinition, hname⟩ := mem_declaredNames_mk.1 hname
  exact mem_declaredNames_mk.2 ⟨definition, h definition hdefinition, hname⟩

/-- Whether the types that a document declares are its root types exactly if they are those of
another one. -/
def SharesRoots (own composed : Document) : Prop :=
  ∀ name ∈ own.declaredNames,
    name ∈ (RootTypes.ofDocument composed).names ↔ name ∈ (RootTypes.ofDocument own).names

theorem sharesRoots_of_conventional
    (hown : own.definitions.filterMap RootTypes.named? = [])
    (hcomposed : composed.definitions.filterMap RootTypes.named? = [])
    (h : ∀ definition ∈ own.definitions, definition ∈ composed.definitions) :
    own.SharesRoots composed := by
  intro name hname
  rw [RootTypes.mem_names_iff hown, RootTypes.mem_names_iff hcomposed]
  exact and_congr_right' (iff_of_true (declaredNames_mono h hname) hname)

end Document

/-! ## What a namespace moves -/

namespace Namespace

variable {ns : Namespace} {own composed : Document}

/-- Names of declared types and of their fields move alike. -/
theorem moves_congr (ns : Namespace) (hshares : own.SharesRoots composed) {typeName : String}
    (hdeclared : typeName ∈ own.declaredNames) :
    ns.typeName (.ofDocument composed) typeName = ns.typeName (.ofDocument own) typeName ∧
      ns.fieldName (.ofDocument composed) typeName = ns.fieldName (.ofDocument own) typeName := by
  have hroot : (RootTypes.ofDocument composed).isRoot typeName =
      (RootTypes.ofDocument own).isRoot typeName := by
    rw [Bool.eq_iff_iff, isRoot_iff, isRoot_iff]
    exact hshares typeName hdeclared
  constructor
  · rw [Namespace.typeName, Namespace.typeName, qualifiesType, qualifiesType, hroot]
  · funext name
    rw [Namespace.fieldName, Namespace.fieldName, hroot]

theorem coordinate_moves_congr (hshares : own.SharesRoots composed) {field : Coordinate}
    (hdeclared : field.typeName ∈ own.declaredNames) :
    (ns.moves (.ofDocument composed)).coordinate field =
      (ns.moves (.ofDocument own)).coordinate field := by
  obtain ⟨htype, hfield⟩ := moves_congr ns hshares hdeclared
  simp only [Renaming.coordinate, moves, htype, hfield]

theorem applyToNodes_congr (hshares : own.SharesRoots composed) {nodes : NodeList}
    (hdeclared : ∀ node ∈ nodes, node.typeName ∈ own.declaredNames) :
    ns.applyToNodes nodes composed = ns.applyToNodes nodes own := by
  refine List.map_congr_left fun node hnode => ?_
  obtain ⟨htype, hfield⟩ := moves_congr ns hshares (hdeclared node hnode)
  rw [htype, hfield]

end Namespace

/-! ## Joined documents -/

namespace Federation

variable {documents : List Document}

theorem distinct_of_nodup {definitions : List Definition}
    (h : (definitions.map Definition.print).Nodup) : distinct definitions = definitions := by
  induction definitions using List.reverseRecOn with
  | nil => rfl
  | append_singleton definitions last ih =>
    rw [List.map_append, List.map_singleton, List.nodup_append] at h
    obtain ⟨hfront, -, hnew⟩ := h
    have hlast : last.print ∉ definitions.map Definition.print := fun hmem =>
      hnew _ hmem _ (List.mem_singleton_self _) rfl
    rw [distinct_concat, ih hfront, if_neg (mt List.contains_iff_mem.1 hlast)]

theorem mem_distinct_iff {definitions : List Definition}
    (hreads : ∀ definition ∈ definitions, definition.ReadsBack) {definition : Definition} :
    definition ∈ distinct definitions ↔ definition ∈ definitions := by
  refine ⟨mem_of_mem_distinct, fun h => ?_⟩
  obtain ⟨kept, hkept, hprint⟩ := exists_mem_distinct h
  have hsame := (hreads kept (mem_of_mem_distinct hkept)).eq_of_print (hreads definition h) hprint
  exact hsame ▸ hkept

/-- Whether a document is one that can be put together with others: its definitions read back, and
none is a `schema` definition. -/
structure IsComposable (document : Document) : Prop where
  readsBack : ∀ definition ∈ document.definitions, definition.ReadsBack
  conventional : document.definitions.filterMap RootTypes.named? = []

variable (h : ∀ document ∈ documents, IsComposable document)

include h

theorem mem_joined {definition : Definition} :
    definition ∈ (joined documents).definitions ↔
      ∃ document ∈ documents, definition ∈ document.definitions := by
  rw [joined, mem_distinct_iff, concat, List.mem_flatMap]
  intro definition hdefinition
  obtain ⟨document, hdocument, hdefinition⟩ := List.mem_flatMap.1 hdefinition
  exact (h document hdocument).readsBack definition hdefinition

/-- Documents put together can be put together with others. -/
theorem isComposable_joined : IsComposable (joined documents) where
  readsBack definition hdefinition := by
    obtain ⟨document, hdocument, hdefinition⟩ := (mem_joined h).1 hdefinition
    exact (h document hdocument).readsBack definition hdefinition
  conventional := by
    refine List.filterMap_eq_nil_iff.2 fun definition hdefinition => ?_
    obtain ⟨document, hdocument, hdefinition⟩ := (mem_joined h).1 hdefinition
    exact List.filterMap_eq_nil_iff.1 (h document hdocument).conventional definition hdefinition

theorem sharesRoots {document : Document} (hdocument : document ∈ documents) :
    document.SharesRoots (joined documents) :=
  Document.sharesRoots_of_conventional (h document hdocument).conventional
    (isComposable_joined h).conventional
    fun _ hdefinition => (mem_joined h).2 ⟨document, hdocument, hdefinition⟩

theorem mem_containers_joined {container : Container} :
    container ∈ (joined documents).containers ↔
      ∃ document ∈ documents, container ∈ document.containers := by
  simp only [Document.containers, List.mem_filterMap, mem_joined h]
  constructor
  · rintro ⟨definition, ⟨document, hdocument, hdefinition⟩, hcontainer⟩
    exact ⟨document, hdocument, definition, hdefinition, hcontainer⟩
  · rintro ⟨document, hdocument, definition, hdefinition, hcontainer⟩
    exact ⟨definition, ⟨document, hdocument, hdefinition⟩, hcontainer⟩

theorem mem_rootFields_joined {field : Coordinate} :
    field ∈ Namespace.rootFields (.ofDocument (joined documents)) (joined documents) ↔
      ∃ document ∈ documents, field ∈ Namespace.rootFields (.ofDocument document) document := by
  have hroots : ∀ document ∈ documents, ∀ container ∈ document.containers,
      container.name ∈ (RootTypes.ofDocument (joined documents)).names ↔
        container.name ∈ (RootTypes.ofDocument document).names :=
    fun document hdocument container hcontainer =>
      sharesRoots h hdocument _ (Document.declared_of_mem_containers hcontainer)
  simp only [Namespace.mem_rootFields, mem_containers_joined h]
  constructor
  · rintro ⟨container, ⟨document, hdocument, hcontainer⟩, hkind, hroot, hfield⟩
    exact ⟨document, hdocument, container, hcontainer, hkind,
      (hroots document hdocument container hcontainer).1 hroot, hfield⟩
  · rintro ⟨document, hdocument, container, hcontainer, hkind, hroot, hfield⟩
    exact ⟨container, ⟨document, hdocument, hcontainer⟩, hkind,
      (hroots document hdocument container hcontainer).2 hroot, hfield⟩

end Federation

end Supergraph
