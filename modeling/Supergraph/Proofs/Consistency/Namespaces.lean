import Supergraph.Proofs.Consistency.Basic
import Supergraph.Proofs.Namespace.Classification

/-!
# Consistency and namespaces

A schema, nodes and field configurations are moved into a namespace each on its own. Nodes and
configurations know a root type by the name it has in the backend; the schema looks at the name that
a type has already got. So the schema moves the fields of a type that comes to bear the name of a
root type, but nodes and configurations do not: these fields are *captured*.

**Theorem (`unambiguous_iff`).** The declared fields are moved like those in nodes and
configurations if and only if no field is captured.

If none is, what fits to a schema fits to it in every namespace (`agrees_of_declares`). If a field
is, its node names a field that is not declared (`not_agrees_of_isCaptured`).
-/

namespace Supergraph

namespace Namespace

/-- Whether the type of a field comes to bear the name of a root type and the field is one that is
moved in root types. -/
def IsCaptured (ns : Namespace) (roots : RootTypes) (field : Coordinate) : Prop :=
  ns.qualifiesType roots field.typeName ∧ ns.qualify field.typeName ∈ roots.names ∧
    ns.qualifiesRootField field.fieldName

/-- Whether no field of the document is captured. -/
def Unambiguous (ns : Namespace) (document : Document) : Prop :=
  ∀ o ∈ document.occurrences, ¬ ns.IsCaptured (.ofDocument document) o.coordinate

instance (ns : Namespace) (roots : RootTypes) : DecidablePred (ns.IsCaptured roots) :=
  fun _ => inferInstanceAs (Decidable (_ ∧ _))

instance (ns : Namespace) : DecidablePred ns.Unambiguous :=
  fun _ => inferInstanceAs (Decidable (∀ o ∈ _, _))

variable {ns : Namespace} {document : Document}

theorem declares_applyToDocument (ns : Namespace) (document : Document) :
    (ns.applyToDocument document).declares = document.occurrences.map fun o =>
      ((ns.occurrence (.ofDocument document) o).coordinate, o.field.isExternal) := by
  rw [Document.declares, occurrences_applyToDocument, List.map_map]
  refine List.map_congr_left fun o _ => ?_
  exact congrArg (Prod.mk _) (Field.isExternal_mapTypeNames _ o.field)

theorem qualify_ne {p : String} (hp : ns.name = some p) (name : String) :
    ns.qualify name ≠ name := by
  intro e
  have hlength := congrArg String.length e
  rw [qualify_eq hp, String.length_append, String.length_append] at hlength
  have hunderscore : "_".length = 1 := rfl
  omega

/-- A field is moved the same way under the new name of its type, unless it is captured. -/
theorem fieldName_typeName_iff (ns : Namespace) (roots : RootTypes) (field : Coordinate) :
    ns.fieldName roots (ns.typeName roots field.typeName) field.fieldName =
      ns.fieldName roots field.typeName field.fieldName ↔ ¬ ns.IsCaptured roots field := by
  obtain ⟨typeName, name⟩ := field
  by_cases htype : ns.qualifiesType roots typeName
  · obtain ⟨p, hp⟩ := exists_name htype
    have hroot := ((qualifiesType_iff hp).1 htype).1
    have hmoved : ns.typeName roots typeName = ns.qualify typeName := if_pos htype
    have hstays : ns.fieldName roots typeName name = name := if_neg (mt isRoot_iff.1 hroot)
    rw [hmoved, hstays, fieldName]
    by_cases hcaptured : ns.qualify typeName ∈ roots.names
    · rw [if_pos (isRoot_iff.2 hcaptured), rootFieldName]
      by_cases hfield : ns.qualifiesRootField name
      · rw [if_pos hfield]
        exact ⟨fun e => absurd e (qualify_ne hp name), fun h => absurd ⟨htype, hcaptured, hfield⟩ h⟩
      · rw [if_neg hfield]
        exact ⟨fun _ h => hfield h.2.2, fun _ => rfl⟩
    · rw [if_neg (mt isRoot_iff.1 hcaptured)]
      exact ⟨fun _ h => hcaptured h.2.1, fun _ => rfl⟩
  · have hstays : ns.typeName roots typeName = typeName := if_neg htype
    rw [hstays]
    exact ⟨fun _ h => htype h.1, fun _ => rfl⟩

/-- **Documents and records are moved alike**, unless a field is captured. -/
theorem unambiguous_iff : ns.Unambiguous document ↔
    (ns.applyToDocument document).declares =
      document.declares.map (Prod.map (ns.moves (.ofDocument document)).coordinate id) := by
  rw [declares_applyToDocument, Document.declares, List.map_map, List.map_inj_left]
  refine forall₂_congr fun o _ => ?_
  rw [← fieldName_typeName_iff]
  constructor
  · intro h
    exact congrArg (Prod.mk · o.field.isExternal) (congrArg (Coordinate.mk _) h)
  · intro h
    obtain ⟨hcoordinate, -⟩ := Prod.mk.injEq .. ▸ h
    exact congrArg Coordinate.fieldName hcoordinate

/-- Where nodes and configurations look for a captured field, nothing is declared, unless its name
looks as if it had been moved. -/
theorem not_mem_declares_of_isCaptured {field : Coordinate}
    (h : ns.IsCaptured (.ofDocument document) field) (hplain : ¬ ns.IsQualified field.fieldName)
    (external : Bool) :
    ((ns.moves (.ofDocument document)).coordinate field, external) ∉
      (ns.applyToDocument document).declares := by
  obtain ⟨htype, hroot, hfield⟩ := h
  obtain ⟨p, hp⟩ := exists_name htype
  have hmoved : (ns.moves (.ofDocument document)).coordinate field =
      ⟨ns.qualify field.typeName, field.fieldName⟩ := by
    have hnot := ((qualifiesType_iff hp).1 htype).1
    exact congr (congrArg Coordinate.mk (if_pos htype)) (if_neg (mt isRoot_iff.1 hnot))
  rw [hmoved, declares_applyToDocument]
  intro hmem
  obtain ⟨o, -, e⟩ := List.mem_map.1 hmem
  obtain ⟨e, -⟩ := Prod.mk.injEq .. ▸ e
  obtain ⟨etype, ename⟩ := Coordinate.mk.injEq .. ▸ e
  -- The other field is one of a root type, so it has been moved or is skipped.
  have hother : ns.rootFieldName o.field.name = field.fieldName := by
    have etype : ns.typeName (.ofDocument document) o.container.name =
        ns.qualify field.typeName := etype
    exact (if_pos (isRoot_iff.2 (etype ▸ hroot))).symm.trans ename
  unfold rootFieldName at hother
  split_ifs at hother with hq
  · exact hplain ⟨_, hother.symm⟩
  · exact hq (hother ▸ hfield)

/-! ## Configurations -/

theorem coordinate_applyToFieldConfig (ns : Namespace) (roots : RootTypes) (config : FieldConfig) :
    (ns.applyToFieldConfig roots config).coordinate =
      (ns.moves roots).coordinate config.coordinate := by
  obtain ⟨typeName, fieldName, _, _, _, _, _⟩ := config
  unfold applyToFieldConfig Renaming.coordinate moves FieldConfig.coordinate
  by_cases hroot : roots.isRoot typeName
  · by_cases hfield : ns.qualifiesRootField fieldName
    · simp [hroot, hfield, typeName_of_mem (isRoot_iff.1 hroot), Namespace.fieldName, rootFieldName]
    · simp [hroot, hfield, typeName_of_mem (isRoot_iff.1 hroot), Namespace.fieldName, rootFieldName]
  · simp [hroot, Namespace.fieldName]

theorem coordinate_rootField {field : Coordinate}
    (hfield : field ∈ rootFields (.ofDocument document) document)
    (hq : ns.qualifiesRootField field.fieldName) :
    (ns.moves (.ofDocument document)).coordinate field =
      ⟨field.typeName, ns.qualify field.fieldName⟩ := by
  obtain ⟨container, -, -, hroot, f, -, rfl⟩ := mem_rootFields.1 hfield
  have hname : ns.fieldName (.ofDocument document) container.name f.name = ns.qualify f.name := by
    rw [fieldName, if_pos (isRoot_iff.2 hroot), rootFieldName, if_pos hq]
  exact congr (congrArg Coordinate.mk (typeName_of_mem hroot)) hname

/-- Every configured field is a moved one: it was configured before or is a root field. -/
theorem coordinate_mem_applyToFieldConfigs {configs : List FieldConfig} {config : FieldConfig}
    (h : config ∈ ns.applyToFieldConfigs configs document) :
    ∃ field ∈ configs.map (·.coordinate) ++ rootFields (.ofDocument document) document,
      config.coordinate = (ns.moves (.ofDocument document)).coordinate field := by
  obtain ⟨rest, hfold, hrest, -⟩ := ns.foldl_addRootField
    (rootFields (.ofDocument document) document)
    (configs.map (ns.applyToFieldConfig (.ofDocument document)))
  rw [applyToFieldConfigs, hfold] at h
  rcases List.mem_append.1 h with h | h
  · obtain ⟨config, hconfig, rfl⟩ := List.mem_map.1 h
    exact ⟨config.coordinate, List.mem_append_left _ (List.mem_map_of_mem hconfig),
      coordinate_applyToFieldConfig ns _ config⟩
  · obtain ⟨field, hfield, hq, rfl⟩ := hrest config h
    exact ⟨field, List.mem_append_right _ hfield, (coordinate_rootField hfield hq).symm⟩

/-! ## Schemas -/

/-- Without a namespace nothing moves. -/
theorem applyToDocument_of_isEmpty (h : ns.isEmpty) (document : Document) :
    ns.applyToDocument document = document := by
  have htypes : ns.typeName (.ofDocument document) = id := by
    funext name
    simp [typeName, qualifiesType, h]
  have hfields : ∀ typeName name, ns.fieldName (.ofDocument document) typeName name = name := by
    intro typeName name
    simp [fieldName, rootFieldName, qualifiesRootField, h]
  rw [applyToDocument, htypes, Document.mapTypeNames_id]
  exact Document.mapFields_eq_self fun container _ field _ => by rw [hfields]

theorem applyToSchema_print (h : parseSchema document.print = .ok document) :
    ns.applyToSchema document.print = .ok (ns.applyToDocument document).print := by
  unfold applyToSchema
  split_ifs with hempty
  · rw [applyToDocument_of_isEmpty hempty]
  · rw [h]
    rfl

/-- What the schema text of a composed schema is read as. Without a namespace nothing is printed. -/
theorem view_of_applyToSchema {β : Type} {view : Document → β} {schema moved : String}
    (hschema : parseSchema schema = .ok document)
    (hmoved : ns.applyToSchema schema = .ok moved)
    (hreads : ¬ ns.isEmpty → (ns.applyToDocument document).ReadsBackAs view) :
    ∃ other, parseSchema moved = .ok other ∧ view other = view (ns.applyToDocument document) := by
  rw [applyToSchema] at hmoved
  split_ifs at hmoved with hempty
  · obtain rfl : schema = moved := Except.ok.inj hmoved
    exact ⟨document, hschema, by rw [applyToDocument_of_isEmpty hempty]⟩
  · rw [hschema] at hmoved
    obtain rfl := Except.ok.inj hmoved
    exact Document.readsBackAs_iff.1 (hreads hempty)

/-- **Namespaces keep the agreement** of a schema with nodes and configurations, unless a field is
captured. -/
theorem agrees_of_declares {nodes : List Coordinate} {configs : List FieldConfig} {other : Document}
    (hagrees : document.Agrees nodes (configs.map (·.coordinate)))
    (hdeclares : other.declares = (ns.applyToDocument document).declares)
    (hunambiguous : ns.Unambiguous document) :
    other.Agrees (nodes.map (ns.moves (.ofDocument document)).coordinate)
      ((ns.applyToFieldConfigs configs document).map (·.coordinate)) := by
  have hroots : ∀ field ∈ rootFields (.ofDocument document) document,
      ∃ external, (field, external) ∈ document.declares := by
    intro field hfield
    obtain ⟨container, hcontainer, -, -, f, hf, rfl⟩ := mem_rootFields.1 hfield
    exact ⟨_, Document.mem_declares.2
      ⟨⟨container, f⟩, Document.mem_occurrences.2 ⟨hcontainer, hf⟩, rfl, rfl⟩⟩
  have hall := (hagrees.append_configured hroots).map
    (ns.moves (.ofDocument document)).coordinate (hdeclares.trans (unambiguous_iff.1 hunambiguous))
  refine hall.mono_configured (List.forall_mem_map.2 fun config hconfig => ?_)
  obtain ⟨field, hfield, h⟩ := coordinate_mem_applyToFieldConfigs hconfig
  exact h ▸ List.mem_map_of_mem hfield

/-- A captured field breaks the agreement, unless its name looks as if it had been moved. -/
theorem not_agrees_of_isCaptured {nodes configured moved : List Coordinate} {other : Document}
    (hagrees : document.Agrees nodes configured)
    (hdeclares : other.declares = (ns.applyToDocument document).declares) {o : Occurrence}
    (ho : o ∈ document.occurrences) (hown : ¬ o.field.isExternal)
    (hcaptured : ns.IsCaptured (.ofDocument document) o.coordinate)
    (hplain : ¬ ns.IsQualified o.field.name) :
    ¬ other.Agrees (nodes.map (ns.moves (.ofDocument document)).coordinate) moved := by
  intro h
  have hnode : o.coordinate ∈ nodes :=
    hagrees.complete _ (Document.mem_declares.2 ⟨o, ho, rfl, rfl⟩) (Bool.eq_false_iff.2 hown)
  obtain ⟨external, hdeclared⟩ := h.nodeDeclared _ (List.mem_map_of_mem hnode)
  exact not_mem_declares_of_isCaptured hcaptured hplain external (hdeclares ▸ hdeclared)

end Namespace

end Supergraph
