import Supergraph.Proofs.Consistency.Namespaces
import Supergraph.Proofs.Namespace.Isolation

/-!
# Names in all parts of a composite

A namespace changes the names in a schema text, in nodes, in field configurations, in type mappings,
in lists of types and in lists of single fields, and each of these has a function of its own. What
one backend says in several of these places still belongs together only if a name becomes the same
in all of them.

**Theorem (`transforms_agree_iff`).** Nodes and field configurations always give a type the name
that the document gives to it. Type mappings and lists of types do so exactly for *plain* types,
which are neither root types nor built-in scalars, and lists of single fields exactly for the fields
of plain types that are not captured.

The first three know the document; the other ones put the namespace in front of every type and leave
every field as it is. So a root type gets a name that no schema has
(`root_type_gets_two_names`).
-/

namespace Supergraph.Namespace

section Types

variable {ns : Namespace} {p : String} (hp : ns.name = some p) {document : Document}

include hp in
/-- The types that get the namespace in front of their names are the plain ones. -/
theorem typeName_eq_qualify_iff {typeName : String} :
    ns.qualify typeName = ns.typeName (.ofDocument document) typeName ↔
      document.IsPlain typeName := by
  rw [Document.IsPlain, isRoot_iff, ← qualifiesType_iff hp, Namespace.typeName]
  by_cases h : ns.qualifiesType (.ofDocument document) typeName
  · rw [if_pos h]
    exact iff_of_true rfl h
  · rw [if_neg h]
    exact iff_of_false (qualify_ne hp typeName) h

theorem typeName_applyToFieldConfig (roots : RootTypes) (config : FieldConfig) :
    (ns.applyToFieldConfig roots config).typeName = ns.typeName roots config.typeName :=
  congrArg Coordinate.typeName (coordinate_applyToFieldConfig ns roots config)

/-- The configurations that are there keep their places; others only follow. -/
theorem typeNames_applyToFieldConfigs (configs : List FieldConfig) :
    configs.map (ns.typeName (.ofDocument document) ·.typeName) <+:
      (ns.applyToFieldConfigs configs document).map (·.typeName) := by
  obtain ⟨rest, hfold, -, -⟩ := ns.foldl_addRootField
    (rootFields (.ofDocument document) document)
    (configs.map (ns.applyToFieldConfig (.ofDocument document)))
  have hmoved : (configs.map (ns.applyToFieldConfig (.ofDocument document))).map (·.typeName) =
      configs.map (ns.typeName (.ofDocument document) ·.typeName) := by
    rw [List.map_map]
    exact List.map_congr_left fun config _ => typeName_applyToFieldConfig _ config
  refine ⟨rest.map (·.typeName), ?_⟩
  rw [applyToFieldConfigs, hfold, List.map_append, hmoved]

include hp in
/-- The pair of a single field is that of the document for the fields of plain types, unless they
are captured. -/
theorem coordinate_occurrence_iff {o : Occurrence} :
    Coordinate.mk (ns.qualify o.container.name) o.field.name =
        (ns.occurrence (.ofDocument document) o).coordinate ↔
      document.IsPlain o.container.name ∧ ¬ ns.IsCaptured (.ofDocument document) o.coordinate := by
  have hcoordinate : (ns.occurrence (.ofDocument document) o).coordinate =
      ⟨ns.typeName (.ofDocument document) o.container.name, ns.fieldName (.ofDocument document)
        (ns.typeName (.ofDocument document) o.container.name) o.field.name⟩ := rfl
  rw [hcoordinate, Coordinate.mk.injEq, typeName_eq_qualify_iff hp, ← fieldName_typeName_iff]
  refine and_congr_right fun hplain => ?_
  have hstays : ns.fieldName (.ofDocument document) o.container.name = id :=
    fieldName_of_not_mem (mt isRoot_iff.2 hplain.1)
  show o.field.name = _ ↔ _ = ns.fieldName (.ofDocument document) o.container.name o.field.name
  rw [hstays, id_eq]
  exact eq_comm

end Types

/-- **All transforms agree** on the names of plain types, and on their fields that are not captured;
on others they do not. The schema text is that of the document with the changed names. -/
theorem transforms_agree_iff (name : String) (hname : name ≠ "") (skipped : List String)
    (document : Document) :
    let ns := ofName (some name) skipped
    let given := ns.typeName (.ofDocument document)
    let moved := ns.applyToDocument document
    (∀ schema, parseSchema schema = .ok document → ns.applyToSchema schema = .ok moved.print) ∧
      moved.typeNames = document.typeNames.map given ∧
      (∀ nodes, (ns.applyToNodes nodes document).map (·.typeName) =
        nodes.map (given ·.typeName)) ∧
      (∀ configs, configs.map (given ·.typeName) <+:
        (ns.applyToFieldConfigs configs document).map (·.typeName)) ∧
      (∀ typeName, ns.applyToTypeNames [typeName] = [given typeName] ↔
        document.IsPlain typeName) ∧
      (∀ mapping : TypeMapping,
        (ns.applyToTypeMappings [mapping]).map (·.typeName) = [given mapping.typeName] ↔
          document.IsPlain mapping.typeName) ∧
      moved.occurrences = document.occurrences.map (ns.occurrence (.ofDocument document)) ∧
      ∀ o ∈ document.occurrences,
        ns.applyToCoordinates [o.coordinate] =
            [(ns.occurrence (.ofDocument document) o).coordinate] ↔
          document.IsPlain o.container.name ∧
            ¬ ns.IsCaptured (.ofDocument document) o.coordinate := by
  intro ns given moved
  have hp : ns.name = some name := name_ofName hname skipped
  have hsingle : ∀ {α : Type} {a b : α}, [a] = [b] ↔ a = b := by simp
  refine ⟨fun schema hread => ?_, typeNames_applyToDocument ns document, fun nodes => ?_,
    typeNames_applyToFieldConfigs, fun typeName => ?_, fun mapping => ?_,
    occurrences_applyToDocument ns document, fun o _ => ?_⟩
  · rw [applyToSchema, isEmpty_eq_false hp, hread]
    rfl
  · rw [applyToNodes, List.map_map]
    rfl
  · exact hsingle.trans (typeName_eq_qualify_iff hp)
  · exact hsingle.trans (typeName_eq_qualify_iff hp)
  · exact hsingle.trans (coordinate_occurrence_iff hp)

/-- All parts call the users of a shop alike. -/
theorem transforms_agree_users :
    let ns := ofName (some "shop") ["total"]
    ns.applyToTypeNames ["User"] = ["shop_User"] ∧
      ns.applyToCoordinates [⟨"User", "name"⟩] = [⟨"shop_User", "name"⟩] ∧
      (ns.applyToDocument users).typeNames =
        ["Query", "shop_User", "ID", "Int", "shop_User", "ID", "String"] := by
  intro ns
  have hgiven : ns.typeName (.ofDocument users) "User" = "shop_User" := by decide
  obtain ⟨-, hdocument, -, -, htypes, -, -, hfields⟩ :=
    transforms_agree_iff "shop" (by decide) ["total"] users
  have ho : ∃ o ∈ users.occurrences, o.coordinate = ⟨"User", "name"⟩ ∧
      users.IsPlain o.container.name ∧ ¬ ns.IsCaptured (.ofDocument users) o.coordinate ∧
      (ns.occurrence (.ofDocument users) o).coordinate = ⟨"shop_User", "name"⟩ := by
    decide +kernel
  obtain ⟨o, ho, hcoordinate, hplain, hfree, hmoved⟩ := ho
  refine ⟨?_, ?_, hdocument.trans (by decide +kernel)⟩
  · rw [← hgiven]
    exact (htypes "User").2 (by decide)
  · rw [← hcoordinate, ← hmoved]
    exact (hfields o ho).2 ⟨hplain, hfree⟩

/-- A root type keeps its name in the document and in nodes, where its fields are prefixed. In type
mappings, lists of types and lists of single fields it is the other way round. -/
theorem root_type_gets_two_names :
    let ns := ofName (some "ns") []
    ∃ document, parseSchema "type Query\x7bme:Int\x7d" = .ok document ∧
      "Query" ∈ document.declaredNames ∧
      (ns.applyToDocument document).declaredNames = ["Query"] ∧
      (ns.applyToDocument document).declares = [(⟨"Query", "ns_me"⟩, false)] ∧
      ns.applyToNodes [⟨"Query", ["me"]⟩] document = [⟨"Query", ["ns_me"]⟩] ∧
      ns.applyToTypeNames ["Query"] = ["ns_Query"] ∧
      ns.applyToTypeMappings [⟨"Query", "Query"⟩] = [⟨"ns_Query", "Query"⟩] ∧
      ns.applyToCoordinates [⟨"Query", "me"⟩] = [⟨"ns_Query", "me"⟩] := by
  intro ns
  obtain ⟨document, hdocument, hdeclared, hnames, hdeclares, hnodes⟩ :
      ∃ document ∈ (parseSchema "type Query\x7bme:Int\x7d").toOption,
        "Query" ∈ document.declaredNames ∧
        (ns.applyToDocument document).declaredNames = ["Query"] ∧
        (ns.applyToDocument document).declares = [(⟨"Query", "ns_me"⟩, false)] ∧
        ns.applyToNodes [⟨"Query", ["me"]⟩] document = [⟨"Query", ["ns_me"]⟩] := by
    decide +kernel
  exact ⟨document, mem_toOption.1 hdocument, hdeclared, hnames, hdeclares, hnodes, rfl, rfl, rfl⟩

end Supergraph.Namespace
