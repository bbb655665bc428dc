import Supergraph.Proofs.Namespace.RootFields

/-!
# The document behind a composed schema

The execution engine has to speak to a backend in the backend's own names. `restore` takes these
from the type mappings and from the paths of the field configurations.

**Theorem (`restore_applyToDocument`).** A document that was moved into a namespace is restored
exactly, and there is one type mapping for each declared type that was moved.

A type is mapped if it is declared, so every named type has to be declared, unless it keeps its
name; and only the fields of object types get a path, so root types must be no interfaces.
-/

namespace Supergraph

/-- The name of a type in the backend. -/
def backendType (mappings : List TypeMapping) (typeName : String) : String :=
  match mappings.find? (·.typeName = typeName) with
  | some mapping => mapping.renameTo
  | none => typeName

/-- The name that a configuration gives to a field by a path of one element. -/
def FieldConfig.backendName? (config : FieldConfig) (field : Coordinate) : Option String :=
  if config.coordinate = field then
    match config.path with
    | [name] => some name
    | _ => none
  else none

/-- The name of a field in the backend. -/
def backendField (configs : List FieldConfig) (field : Coordinate) : String :=
  (configs.findSome? (·.backendName? field)).getD field.fieldName

/-- A field of the type `typeName` under its name in the backend. Only root fields have another. -/
def restoreField (roots : RootTypes) (configs : List FieldConfig) (typeName : String)
    (field : Field) : Field :=
  if roots.isRoot typeName then
    { field with name := backendField configs ⟨typeName, field.name⟩ }
  else field

/-- The document with the names that types and fields have in the backend. -/
def restore (mappings : List TypeMapping) (configs : List FieldConfig) (composed : Document) :
    Document :=
  (composed.mapFields (restoreField (.ofDocument composed) configs)).mapTypeNames
    (backendType mappings)

theorem FieldConfig.backendName?_eq_some {config : FieldConfig} {field : Coordinate}
    {name : String} :
    config.backendName? field = some name ↔ config.coordinate = field ∧ config.path = [name] := by
  rw [backendName?]
  split_ifs with hcoordinate
  · split
    · simp_all
    · simp_all
  · simp [hcoordinate]

namespace Namespace

section

variable {ns : Namespace} {p : String} (hp : ns.name = some p) {document : Document}

include hp

/-! ## Types -/

theorem foldl_addTypeMapping (roots : RootTypes) (names : List String) :
    names.foldl (ns.addTypeMapping roots) [] =
      (names.filter (ns.qualifiesType roots)).eraseDups.map
        fun name => ⟨ns.qualify name, name⟩ := by
  induction names using List.reverseRecOn with
  | nil => rfl
  | append_singleton names name ih =>
    have hpresent : ((names.filter (ns.qualifiesType roots)).eraseDups.map
        fun name => TypeMapping.mk (ns.qualify name) name).any
          (·.typeName = ns.qualify name) ↔ name ∈ names.filter (ns.qualifiesType roots) := by
      simp [qualify_inj hp, List.mem_eraseDups]
    rw [List.foldl_append, ih, List.foldl_cons, List.foldl_nil, addTypeMapping, List.filter_append]
    by_cases hq : ns.qualifiesType roots name
    · rw [List.filter_cons_of_pos hq, List.filter_nil, eraseDups_concat]
      by_cases hmem : name ∈ names.filter (ns.qualifiesType roots)
      · rw [if_neg (by simp [hpresent.2 hmem]), if_pos hmem]
      · rw [if_pos ⟨hq, by simpa using mt hpresent.1 hmem⟩, if_neg hmem, List.map_append,
          List.map_singleton]
    · rw [if_neg fun h => hq h.1, List.filter_cons_of_neg hq, List.filter_nil, List.append_nil]

/-- The types of a document that are moved are those with a mapping. -/
theorem mem_typeMappings {mapping : TypeMapping} :
    mapping ∈ ns.typeMappings document ↔
      (mapping.renameTo ∈ document.declaredNames ∧
        mapping.renameTo ∉ (RootTypes.ofDocument document).names ∧
          ¬ isBuiltinScalar mapping.renameTo) ∧
      mapping.typeName = ns.qualify mapping.renameTo := by
  rw [typeMappings, foldl_addTypeMapping hp]
  simp only [List.mem_map, List.mem_eraseDups, List.mem_filter, qualifiesType_iff hp]
  constructor
  · rintro ⟨name, h, rfl⟩
    exact ⟨h, rfl⟩
  · rintro ⟨h, htype⟩
    exact ⟨mapping.renameTo, h, by rw [← htype]⟩

theorem nodup_typeMappings (document : Document) :
    ((ns.typeMappings document).map (·.renameTo)).Nodup := by
  rw [typeMappings, foldl_addTypeMapping hp, List.map_map]
  exact (List.map_id _).symm ▸ nodup_eraseDups _

/-- The mappings undo what the namespace does to declared types, root types and scalars. -/
theorem backendType_typeName (hfits : ns.Fits (.ofDocument document)) {name : String}
    (hname : name ∈ document.declaredNames ∨ name ∈ (RootTypes.ofDocument document).names ∨
      isBuiltinScalar name) :
    backendType (ns.typeMappings document) (ns.typeName (.ofDocument document) name) = name := by
  rcases typeName_cases hp hfits name with ⟨hq, hmoved⟩ | ⟨hqualified, hstays⟩
  · obtain ⟨hroot, hscalar⟩ := (qualifiesType_iff hp).1 hq
    have hdeclared : name ∈ document.declaredNames := by
      rcases hname with h | h | h
      · exact h
      · exact absurd h hroot
      · exact absurd h hscalar
    have hmem : ⟨ns.qualify name, name⟩ ∈ ns.typeMappings document :=
      (mem_typeMappings hp).2 ⟨⟨hdeclared, hroot, hscalar⟩, rfl⟩
    -- The type has moved, and its new name has one mapping only.
    rw [hmoved, backendType]
    cases hfind : (ns.typeMappings document).find? (·.typeName = ns.qualify name) with
    | none => simpa using List.find?_eq_none.1 hfind _ hmem
    | some mapping =>
      have htype : mapping.typeName = ns.qualify name := by simpa using List.find?_some hfind
      obtain ⟨-, hqualify⟩ := (mem_typeMappings hp).1 (List.mem_of_find?_eq_some hfind)
      exact (qualify_inj hp).1 (hqualify.symm.trans htype)
  · -- The type keeps its name, which is no moved one.
    have hnone : (ns.typeMappings document).find? (·.typeName = name) = none := by
      refine List.find?_eq_none.2 fun mapping hmapping e => hqualified ⟨mapping.renameTo, ?_⟩
      rw [← ((mem_typeMappings hp).1 hmapping).2, of_decide_eq_true e]
    rw [hstays, backendType, hnone]

/-! ## Fields of root types -/

/-- The paths undo what the namespace does to the fields of root types. -/
theorem backendField_rootFieldName (hfits : ns.Fits (.ofDocument document))
    {configs : List FieldConfig} (hpaths : ∀ config ∈ configs, config.path = [])
    {field : Coordinate} (hfield : field ∈ rootFields (.ofDocument document) document) :
    backendField (ns.applyToFieldConfigs configs document)
      ⟨field.typeName, ns.rootFieldName field.fieldName⟩ = field.fieldName := by
  have hroot : field.typeName ∈ (RootTypes.ofDocument document).names := by
    obtain ⟨container, -, -, hroot, f, -, rfl⟩ := mem_rootFields.1 hfield
    exact hroot
  have hinj := rootFieldName_injective hp hfits
  rw [backendField]
  cases hfound : (ns.applyToFieldConfigs configs document).findSome?
      (·.backendName? ⟨field.typeName, ns.rootFieldName field.fieldName⟩) with
  | some name =>
    -- A path names the moved field, whose new name belongs to no other field.
    obtain ⟨config, hconfig, h⟩ := List.exists_of_findSome?_eq_some hfound
    obtain ⟨hcoordinate, hpath⟩ := FieldConfig.backendName?_eq_some.1 h
    obtain ⟨htype, hname⟩ := Coordinate.mk.injEq .. ▸ hcoordinate
    rcases path_cases hp hfits hpaths hconfig (htype ▸ hroot) with ⟨hnil, -⟩ | ⟨moved, hone, hq, hm⟩
    · exact absurd (hpath.symm.trans hnil) (List.cons_ne_nil _ _)
    · obtain rfl : moved = name := List.head_eq_of_cons_eq (hone.symm.trans hpath)
      have hmoved : ns.rootFieldName moved = ns.qualify moved :=
        if_pos ((qualifiesRootField_iff hp).2 hm)
      exact hinj (hmoved.trans (hq.symm.trans hname))
  | none =>
    -- No path leads to the field, so it cannot have moved.
    by_cases hskipped : field.fieldName ∈ ns.skippedRootFields
    · exact if_neg (mt (qualifiesRootField_iff hp).1 (not_not.2 hskipped))
    · obtain ⟨config, hconfig, hcoordinate, hpath⟩ := exists_path hp hfits hpaths hfield hskipped
      have hmoved : ns.rootFieldName field.fieldName = ns.qualify field.fieldName :=
        if_pos ((qualifiesRootField_iff hp).2 hskipped)
      have hnone := List.findSome?_eq_none_iff.1 hfound config hconfig
      rw [hmoved, FieldConfig.backendName?_eq_some.2 ⟨hcoordinate, hpath⟩] at hnone
      exact absurd hnone (Option.some_ne_none _)

theorem restoreField_fieldName (hfits : ns.Fits (.ofDocument document))
    {configs : List FieldConfig} (hpaths : ∀ config ∈ configs, config.path = [])
    {typeName : String} {field : Field}
    (hfield : typeName ∈ (RootTypes.ofDocument document).names →
      ⟨typeName, field.name⟩ ∈ rootFields (.ofDocument document) document) :
    restoreField (.ofDocument document) (ns.applyToFieldConfigs configs document) typeName
      { field with name := ns.fieldName (.ofDocument document) typeName field.name } = field := by
  rw [restoreField, fieldName]
  split_ifs with hroot
  · rw [backendField_rootFieldName hp hfits hpaths (hfield (isRoot_iff.1 hroot))]
  · rfl

end

/-! ## Documents -/

/-- **A namespace loses nothing.** The document is found again behind the composed one, and each of
its declared types that is neither a root type nor a scalar has exactly one mapping. -/
theorem restore_applyToDocument (document : Document) (name : String) (hname : name ≠ "")
    (skipped : List String) (hfits : (ofName (some name) skipped).Fits (.ofDocument document))
    (hnamed : ∀ typeName ∈ document.typeNames, typeName ∈ document.declaredNames ∨
      typeName ∈ (RootTypes.ofDocument document).names ∨ isBuiltinScalar typeName)
    (hobjects : ∀ container ∈ document.containers,
      container.name ∈ (RootTypes.ofDocument document).names → container.kind = .object)
    (retypings : List ArgumentRetyping) (c : Classification)
    (hc : classify document none retypings = .ok c) :
    let ns := ofName (some name) skipped
    restore (ns.typeMappings document) (ns.applyToFieldConfigs c.fields document)
        (ns.applyToDocument document) = document ∧
      ((ns.typeMappings document).map (·.renameTo)).Nodup ∧
      ∀ mapping, mapping ∈ ns.typeMappings document ↔
        (mapping.renameTo ∈ document.declaredNames ∧
          mapping.renameTo ∉ (RootTypes.ofDocument document).names ∧
            ¬ isBuiltinScalar mapping.renameTo) ∧
        mapping.typeName = ns.qualify mapping.renameTo := by
  intro ns
  have hp : ns.name = some name := name_ofName hname skipped
  refine ⟨?_, nodup_typeMappings hp document, fun _ => mem_typeMappings hp⟩
  have hpaths : ∀ config ∈ c.fields, config.path = [] := by
    intro config hconfig
    obtain ⟨-, rfl⟩ := classify_eq_ok.1 hc
    obtain ⟨field, -, rfl⟩ := List.mem_map.1 hconfig
    rfl
  have hroots : restoreField (.ofDocument (ns.applyToDocument document)) =
      restoreField (.ofDocument document) := by
    funext configs typeName field
    rw [restoreField, restoreField, RootTypes.isRoot_eq_contains, RootTypes.isRoot_eq_contains,
      names_applyToDocument]
  -- Fields were moved after types, so they are restored before them.
  rw [restore, hroots, applyToDocument, Document.mapFields_mapFields, Document.mapFields_eq_self]
  · exact Document.mapTypeNames_cancel fun typeName h =>
      backendType_typeName hp hfits (hnamed typeName h)
  · rw [Document.containers_mapTypeNames]
    intro moved hmoved movedField hmovedField
    obtain ⟨container, hcontainer, rfl⟩ := List.mem_map.1 hmoved
    obtain ⟨field, hfield, rfl⟩ := List.mem_map.1 hmovedField
    refine restoreField_fieldName hp hfits hpaths fun hroot => ?_
    have hroot : container.name ∈ (RootTypes.ofDocument document).names :=
      (typeName_mem_names hp hfits).1 hroot
    exact mem_rootFields.2 ⟨container, hcontainer, hobjects container hcontainer hroot, hroot,
      field, hfield, congrArg (Coordinate.mk · _) (typeName_of_mem hroot)⟩

/-- The users are found again behind a shop, which keeps the name of the total. -/
theorem restore_applyToDocument_users :
    let ns := ofName (some "shop") ["total"]
    restore (ns.typeMappings users) (ns.applyToFieldConfigs (users.classification []).fields users)
        (ns.applyToDocument users) = users ∧
      ns.typeMappings users = [⟨"shop_User", "User"⟩] := by
  intro ns
  have hnamed : ∀ typeName ∈ users.typeNames, typeName ∈ users.declaredNames ∨
      typeName ∈ (RootTypes.ofDocument users).names ∨ isBuiltinScalar typeName := by decide
  have hobjects : ∀ container ∈ users.containers,
      container.name ∈ (RootTypes.ofDocument users).names → container.kind = .object := by decide
  obtain ⟨hrestore, -⟩ := restore_applyToDocument users "shop" (by decide) ["total"] fits_users
    hnamed hobjects [] _ classify_users
  exact ⟨hrestore, by decide +kernel⟩

end Namespace

end Supergraph
