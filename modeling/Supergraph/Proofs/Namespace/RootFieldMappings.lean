import Supergraph.Proofs.Consistency.Namespaces
import Supergraph.Proofs.Namespace.RootFields

/-!
# The way back from a root field

The composed schema moves the fields of every type that has the name of a root type. A request for a
moved field goes to the backend under the old name, which the one configuration of the field gives
by its path.

Configurations that were there are moved, and a missing one is added. Two things can come in
between.

- Only the fields of root types that are *objects* are looked through for missing configurations.
- A configuration counts as present if it has the new name, and the configuration of *another* field
  may have it: that of a skipped field which looks as if it had been moved, or that of a captured
  one (`inTheWay`).

**Theorem (`mapsBack_iff`).** A moved field is mapped back by exactly one configuration if and only
if nothing is in the way and the field has a configuration or is one of an object, or if it has none
and a single configuration in its way happens to give the right path.

If no root type and no skipped root field looks as if it had been moved, nothing is ever in the way
(`inTheWay_of_fits`).
-/

namespace Supergraph

/-- Exactly one configuration is for `composed`, and its path leads to `name`. -/
def MapsBack (configs : List FieldConfig) (composed : Coordinate) (name : String) : Prop :=
  ∃ config, configs.filter (·.coordinate = composed) = [config] ∧ config.path = [name]

namespace Namespace

/-- Where a root field is after it has been moved. -/
def movedRootField (ns : Namespace) (field : Coordinate) : Coordinate :=
  ⟨field.typeName, ns.qualify field.fieldName⟩

/-- Whether a configuration is one of another field that is moved to the place of a moved root
field. -/
def IsInTheWay (ns : Namespace) (roots : RootTypes) (field : Coordinate) (config : FieldConfig) :
    Prop :=
  (ns.moves roots).coordinate config.coordinate = ns.movedRootField field ∧
    config.coordinate ≠ field

instance (ns : Namespace) (roots : RootTypes) (field : Coordinate) :
    DecidablePred (ns.IsInTheWay roots field) :=
  fun _ => inferInstanceAs (Decidable (_ ∧ _))

/-- The configurations of other fields at the place of a moved root field. -/
def inTheWay (ns : Namespace) (roots : RootTypes) (configs : List FieldConfig)
    (field : Coordinate) : List FieldConfig :=
  configs.filter (ns.IsInTheWay roots field)

/-- The configurations that are moved to the place of a moved root field. -/
def atPlace (ns : Namespace) (roots : RootTypes) (configs : List FieldConfig)
    (field : Coordinate) : List FieldConfig :=
  configs.filter fun config => config.coordinate = field ∨ ns.IsInTheWay roots field config

/-- Whether a moved root field ends up with exactly one configuration, which gives its old name. -/
def Recoverable (ns : Namespace) (document : Document) (configs : List FieldConfig)
    (field : Coordinate) : Prop :=
  let others := ns.inTheWay (.ofDocument document) configs field
  (others = [] ∧ (field ∈ configs.map (·.coordinate) ∨
      field ∈ rootFields (.ofDocument document) document)) ∨
    (field ∉ configs.map (·.coordinate) ∧
      ∃ config, others = [config] ∧ config.path = [field.fieldName])

variable {ns : Namespace} {document : Document} {configs : List FieldConfig} {field : Coordinate}

theorem addRootField_eq (configs : List FieldConfig) (other : Coordinate) :
    ns.addRootField configs other =
      if ns.qualifiesRootField other.fieldName ∧
          configs.filter (·.coordinate = ns.movedRootField other) = [] then
        configs ++ [ns.rootFieldConfig other]
      else configs := by
  refine if_congr (and_congr_right' ?_) rfl rfl
  rw [Bool.not_eq_true', List.any_eq_false, List.filter_eq_nil_iff]
  rfl

theorem coordinate_moves_of_mem {roots : RootTypes} (hroot : field.typeName ∈ roots.names)
    (hq : ns.qualifiesRootField field.fieldName) :
    (ns.moves roots).coordinate field = ns.movedRootField field := by
  have hname : ns.fieldName roots field.typeName field.fieldName = ns.qualify field.fieldName := by
    rw [fieldName, if_pos (isRoot_iff.2 hroot), rootFieldName, if_pos hq]
  exact congrArg₂ Coordinate.mk (typeName_of_mem hroot) hname

section Added

variable {p : String} (hp : ns.name = some p)

include hp

theorem movedRootField_inj {other : Coordinate} :
    ns.movedRootField field = ns.movedRootField other ↔ field = other := by
  obtain ⟨typeName, name⟩ := field
  obtain ⟨otherType, otherName⟩ := other
  simp only [movedRootField, Coordinate.mk.injEq, qualify_inj hp]

variable (hq : ns.qualifiesRootField field.fieldName)

include hq

/-- A step adds the configuration of its own field if there is none, and none of another field. -/
theorem filter_addRootField (configs : List FieldConfig) (other : Coordinate) :
    (ns.addRootField configs other).filter (·.coordinate = ns.movedRootField field) =
      if other = field ∧ configs.filter (·.coordinate = ns.movedRootField field) = [] then
        [ns.rootFieldConfig field]
      else configs.filter (·.coordinate = ns.movedRootField field) := by
  have hadded : (ns.rootFieldConfig other).coordinate = ns.movedRootField other := rfl
  rw [addRootField_eq]
  by_cases hother : other = field
  · subst hother
    by_cases hnone : configs.filter (·.coordinate = ns.movedRootField other) = []
    · rw [if_pos ⟨hq, hnone⟩, if_pos ⟨rfl, hnone⟩, List.filter_append, hnone, List.nil_append]
      exact List.filter_cons_of_pos (by simpa using hadded)
    · rw [if_neg fun h => hnone h.2, if_neg fun h => hnone h.2]
  · have hne : ¬ ns.movedRootField other = ns.movedRootField field :=
      mt (movedRootField_inj hp).1 hother
    rw [if_neg fun h : other = field ∧ _ => hother h.1]
    split_ifs
    · rw [List.filter_append, List.filter_cons_of_neg (by simpa [hadded] using hne),
        List.filter_nil, List.append_nil]
    · rfl

/-- All steps together add the configuration if the field is listed and has none. -/
theorem filter_foldl_addRootField (fields : List Coordinate) (configs : List FieldConfig) :
    (fields.foldl ns.addRootField configs).filter (·.coordinate = ns.movedRootField field) =
      if field ∈ fields ∧ configs.filter (·.coordinate = ns.movedRootField field) = [] then
        [ns.rootFieldConfig field]
      else configs.filter (·.coordinate = ns.movedRootField field) := by
  induction fields generalizing configs with
  | nil => simp
  | cons other fields ih =>
    rw [List.foldl_cons, ih, filter_addRootField hp hq]
    by_cases hother : other = field
    · by_cases hnone : configs.filter (·.coordinate = ns.movedRootField field) = [] <;>
        simp [hother, hnone]
    · simp [hother, eq_comm (a := field)]

end Added

/-! ## Configurations that are there before -/

section Root

variable {roots : RootTypes}

/-- A configuration in the way keeps its path, because it is not one of a field that is moved in a
root type. -/
theorem path_of_isInTheWay {p : String} (hp : ns.name = some p) {config : FieldConfig}
    (h : ns.IsInTheWay roots field config) :
    (ns.applyToFieldConfig roots config).path = config.path := by
  obtain ⟨hplace, hother⟩ := h
  unfold applyToFieldConfig
  split_ifs with hroot hq
  · have hmoved : (ns.moves roots).coordinate config.coordinate =
        ns.movedRootField config.coordinate :=
      coordinate_moves_of_mem (isRoot_iff.1 hroot) hq
    exact absurd ((movedRootField_inj hp).1 (hmoved.symm.trans hplace)) hother
  · rfl
  · rfl

variable (hroot : field.typeName ∈ roots.names) (hq : ns.qualifiesRootField field.fieldName)

include hroot hq

theorem path_of_coordinate_eq {config : FieldConfig} (h : config.coordinate = field) :
    (ns.applyToFieldConfig roots config).path = [field.fieldName] := by
  subst h
  have hroot : roots.isRoot config.typeName := isRoot_iff.2 hroot
  have hq : ns.qualifiesRootField config.fieldName := hq
  rw [applyToFieldConfig, if_pos hroot, if_pos hq]
  rfl

/-- The configurations at the place of a moved root field are its own and those in its way. -/
theorem filter_map_applyToFieldConfig (configs : List FieldConfig) :
    (configs.map (ns.applyToFieldConfig roots)).filter
        (·.coordinate = ns.movedRootField field) =
      (ns.atPlace roots configs field).map (ns.applyToFieldConfig roots) := by
  rw [List.filter_map]
  refine congrArg (List.map _) (List.filter_congr fun config _ => ?_)
  rw [Function.comp_apply, coordinate_applyToFieldConfig]
  refine decide_eq_decide.2 ⟨fun h => ?_, ?_⟩
  · by_cases hother : config.coordinate = field
    · exact .inl hother
    · exact .inr ⟨h, hother⟩
  · rintro (rfl | h)
    · exact coordinate_moves_of_mem hroot hq
    · exact h.1

end Root

/-! ## The result -/

section AtPlace

variable {roots : RootTypes}

theorem atPlace_of_not_mem (h : field ∉ configs.map (·.coordinate)) :
    ns.atPlace roots configs field = ns.inTheWay roots configs field :=
  List.filter_congr fun config hconfig => decide_eq_decide.2
    (or_iff_right fun e : config.coordinate = field => h (e ▸ List.mem_map_of_mem hconfig))

theorem atPlace_of_inTheWay_eq_nil (hnodup : (configs.map (·.coordinate)).Nodup)
    (h : ns.inTheWay roots configs field = []) {own : FieldConfig} (hown : own ∈ configs)
    (hfield : own.coordinate = field) : ns.atPlace roots configs field = [own] := by
  subst hfield
  rw [← filter_key_of_mem hnodup hown]
  exact List.filter_congr fun config hconfig => decide_eq_decide.2 (or_iff_left fun hway =>
    List.filter_eq_nil_iff.1 h config hconfig (decide_eq_true hway))

theorem inTheWay_eq_nil_of_atPlace {own only : FieldConfig} (hown : own ∈ configs)
    (hfield : own.coordinate = field) (h : ns.atPlace roots configs field = [only]) :
    ns.inTheWay roots configs field = [] := by
  have hplace : ∀ config ∈ configs,
      config.coordinate = field ∨ ns.IsInTheWay roots field config → config = only :=
    fun config hconfig hplace =>
      List.mem_singleton.1 (h ▸ List.mem_filter.2 ⟨hconfig, decide_eq_true hplace⟩)
  refine List.filter_eq_nil_iff.2 fun other hother hway => ?_
  have hway : ns.IsInTheWay roots field other := of_decide_eq_true hway
  obtain rfl := (hplace other hother (.inr hway)).trans (hplace own hown (.inl hfield)).symm
  exact hway.2 hfield

end AtPlace

section Result

variable {p : String} (hp : ns.name = some p)
  (hroot : field.typeName ∈ (RootTypes.ofDocument document).names)
  (hq : ns.qualifiesRootField field.fieldName)

include hp hroot hq

/-- The configurations at the place of a moved root field in the end. -/
theorem filter_applyToFieldConfigs :
    (ns.applyToFieldConfigs configs document).filter (·.coordinate = ns.movedRootField field) =
      if field ∈ rootFields (.ofDocument document) document ∧
          ns.atPlace (.ofDocument document) configs field = [] then
        [ns.rootFieldConfig field]
      else (ns.atPlace (.ofDocument document) configs field).map
        (ns.applyToFieldConfig (.ofDocument document)) := by
  rw [applyToFieldConfigs, filter_foldl_addRootField hp hq,
    filter_map_applyToFieldConfig hroot hq]
  simp only [List.map_eq_nil_iff]

theorem mapsBack_of_mem (hnodup : (configs.map (·.coordinate)).Nodup)
    (hfield : field ∈ configs.map (·.coordinate)) :
    MapsBack (ns.applyToFieldConfigs configs document) (ns.movedRootField field) field.fieldName ↔
      ns.inTheWay (.ofDocument document) configs field = [] := by
  obtain ⟨own, hown, hcoordinate⟩ := List.mem_map.1 hfield
  have hsome : ns.atPlace (.ofDocument document) configs field ≠ [] :=
    List.ne_nil_of_mem (List.mem_filter.2 ⟨hown, decide_eq_true (.inl hcoordinate)⟩)
  rw [MapsBack, filter_applyToFieldConfigs hp hroot hq, if_neg fun h => hsome h.2]
  constructor
  · rintro ⟨config, h, -⟩
    obtain ⟨only, honly, -⟩ := List.map_eq_singleton_iff.1 h
    exact inTheWay_eq_nil_of_atPlace hown hcoordinate honly
  · intro h
    rw [atPlace_of_inTheWay_eq_nil hnodup h hown hcoordinate]
    exact ⟨_, rfl, path_of_coordinate_eq hroot hq hcoordinate⟩

theorem mapsBack_of_not_mem (hfield : field ∉ configs.map (·.coordinate)) :
    MapsBack (ns.applyToFieldConfigs configs document) (ns.movedRootField field) field.fieldName ↔
      (ns.inTheWay (.ofDocument document) configs field = [] ∧
        field ∈ rootFields (.ofDocument document) document) ∨
      ∃ config, ns.inTheWay (.ofDocument document) configs field = [config] ∧
        config.path = [field.fieldName] := by
  rw [MapsBack, filter_applyToFieldConfigs hp hroot hq, atPlace_of_not_mem hfield]
  -- A configuration in the way keeps the field from getting one of its own.
  cases hothers : ns.inTheWay (.ofDocument document) configs field with
  | nil =>
    by_cases hlisted : field ∈ rootFields (.ofDocument document) document
    · simp [hlisted, rootFieldConfig]
    · simp [hlisted]
  | cons other rest =>
    have hway : ns.IsInTheWay (.ofDocument document) field other := by
      have hmem : other ∈ ns.inTheWay (.ofDocument document) configs field := by simp [hothers]
      exact of_decide_eq_true (List.mem_filter.1 hmem).2
    rw [if_neg (by simp)]
    cases rest with
    | nil => simp [path_of_isInTheWay hp hway]
    | cons => simp

/-- **A moved root field is mapped back** exactly if it is recoverable. -/
theorem mapsBack_iff_recoverable (hnodup : (configs.map (·.coordinate)).Nodup) :
    MapsBack (ns.applyToFieldConfigs configs document) (ns.movedRootField field) field.fieldName ↔
      ns.Recoverable document configs field := by
  by_cases hfield : field ∈ configs.map (·.coordinate)
  · rw [mapsBack_of_mem hp hroot hq hnodup hfield]
    simp [Recoverable, hfield]
  · rw [mapsBack_of_not_mem hp hroot hq hfield]
    simp [Recoverable, hfield]

end Result

/-- Nothing is in the way if no root type and no skipped root field looks as if it had been moved.
-/
theorem inTheWay_of_fits {p : String} (hp : ns.name = some p)
    (hfits : ns.Fits (.ofDocument document)) (hroot : field.typeName ∈
      (RootTypes.ofDocument document).names) (configs : List FieldConfig) :
    ns.inTheWay (.ofDocument document) configs field = [] := by
  refine List.filter_eq_nil_iff.2 fun config _ hway => ?_
  obtain ⟨hplace, hother⟩ : ns.IsInTheWay (.ofDocument document) field config :=
    of_decide_eq_true hway
  obtain ⟨htype, hname⟩ := Coordinate.mk.injEq .. ▸ hplace
  have htype : ns.typeName (.ofDocument document) config.typeName = field.typeName := htype
  have hconfig : config.typeName ∈ (RootTypes.ofDocument document).names :=
    (typeName_mem_names hp hfits).1 (htype ▸ hroot)
  -- A moved field of the same name would be the same field, and one that stays is not moved.
  by_cases hq : ns.qualifiesRootField config.fieldName
  · have hmoved : (ns.moves (.ofDocument document)).coordinate config.coordinate =
        ns.movedRootField config.coordinate :=
      coordinate_moves_of_mem hconfig hq
    exact hother ((movedRootField_inj hp).1 (hmoved.symm.trans hplace))
  · have hstays : ns.fieldName (.ofDocument document) config.typeName config.fieldName =
        config.fieldName := by
      rw [fieldName, if_pos (isRoot_iff.2 hconfig), rootFieldName, if_neg hq]
    have hskipped := not_not.1 (mt (qualifiesRootField_iff hp).2 hq)
    exact hfits.skipped _ hskipped ⟨_, hstays.symm.trans hname⟩

theorem qualifiesRootField_of_moved {o : Occurrence}
    (hroot : o.container.name ∈ (RootTypes.ofDocument document).names)
    (hmoved : (ns.occurrence (.ofDocument document) o).field.name ≠ o.field.name) :
    ns.qualifiesRootField o.field.name := by
  by_contra hq
  refine hmoved ?_
  show ns.fieldName _ (ns.typeName _ o.container.name) o.field.name = _
  rw [typeName_of_mem hroot, fieldName, if_pos (isRoot_iff.2 hroot), rootFieldName, if_neg hq]

theorem exists_name_of_qualifiesRootField {name : String} (h : ns.qualifiesRootField name) :
    ∃ p, ns.name = some p := by
  cases hname : ns.name with
  | none => simp [qualifiesRootField, isEmpty, hname] at h
  | some p => exact ⟨p, rfl⟩

/-- **A root field whose name changes is mapped back** by exactly one configuration if and only if
it is recoverable. Here `moved` is what becomes of the field `o` in the composed schema. -/
theorem mapsBack_iff (hnodup : (configs.map (·.coordinate)).Nodup) {o moved : Occurrence}
    (h : (o, moved) ∈ document.occurrences.zip (ns.applyToDocument document).occurrences)
    (hroot : o.container.name ∈ (RootTypes.ofDocument document).names)
    (hmoved : moved.field.name ≠ o.field.name) :
    MapsBack (ns.applyToFieldConfigs configs document) ⟨o.container.name, moved.field.name⟩
        o.field.name ↔
      ns.Recoverable document configs o.coordinate := by
  obtain rfl : moved = ns.occurrence (.ofDocument document) o := by
    rw [occurrences_applyToDocument, ← List.map_prod_left_eq_zip] at h
    obtain ⟨_, -, h⟩ := List.mem_map.1 h
    obtain ⟨rfl, rfl⟩ := Prod.mk.injEq .. ▸ h
    rfl
  have hq := qualifiesRootField_of_moved hroot hmoved
  obtain ⟨p, hp⟩ := exists_name_of_qualifiesRootField hq
  have hname : (ns.occurrence (.ofDocument document) o).field.name = ns.qualify o.field.name := by
    show ns.fieldName _ (ns.typeName _ o.container.name) o.field.name = _
    rw [typeName_of_mem hroot, fieldName, if_pos (isRoot_iff.2 hroot), rootFieldName, if_pos hq]
  rw [hname]
  have hroot' : o.coordinate.typeName ∈ (RootTypes.ofDocument document).names := hroot
  exact mapsBack_iff_recoverable hp hroot' hq hnodup

/-- The user of a shop is found by its old name, whether or not the field was configured before. -/
theorem mapsBack_iff_users :
    let ns := ofName (some "shop") ["total"]
    (ns.applyToDocument users).declares = [(⟨"Query", "shop_user"⟩, false),
        (⟨"Query", "total"⟩, false), (⟨"shop_User", "id"⟩, false), (⟨"shop_User", "name"⟩, false)] ∧
      MapsBack (ns.applyToFieldConfigs [] users) ⟨"Query", "shop_user"⟩ "user" ∧
      MapsBack (ns.applyToFieldConfigs [.blank ⟨"Query", "user"⟩] users) ⟨"Query", "shop_user"⟩
        "user" := by
  intro ns
  have hp : ns.name = some "shop" := rfl
  obtain ⟨⟨o, moved⟩, h, htype, hname, hmoved⟩ :
      ∃ pair ∈ users.occurrences.zip (ns.applyToDocument users).occurrences,
        pair.1.container.name = "Query" ∧ pair.1.field.name = "user" ∧
          pair.2.field.name = "shop_user" := by
    decide +kernel
  have hroot : o.container.name ∈ (RootTypes.ofDocument users).names := htype ▸ by decide
  have hne : moved.field.name ≠ o.field.name := hmoved ▸ hname ▸ by decide
  have hroot' : o.coordinate.typeName ∈ (RootTypes.ofDocument users).names := hroot
  have hfree := inTheWay_of_fits hp fits_users hroot'
  have hlisted : o.coordinate ∈ rootFields (.ofDocument users) users := by
    rw [Occurrence.coordinate, htype, hname]
    decide +kernel
  rw [← htype, ← hmoved, ← hname]
  refine ⟨?_, (mapsBack_iff (by simp) h hroot hne).2 (.inl ⟨hfree _, .inr hlisted⟩),
    (mapsBack_iff (by simp) h hroot hne).2 (.inl ⟨hfree _, .inl ?_⟩)⟩
  · rw [htype, hmoved]
    decide +kernel
  · exact List.mem_singleton_self _

-- The skipped field has the name that the other one gets, so nothing is added.
example :
    let ns := ofName (some "ns") ["ns_b"]
    ∃ document ∈ (parseSchema "type Query { b: Int ns_b(x: Int): Int }").toOption,
      ns.applyToFieldConfigs [.blank ⟨"Query", "ns_b"⟩] document =
        [.blank ⟨"Query", "ns_b"⟩] := by
  decide +kernel

/-- The field of a root type that is an interface is moved but not mapped back. -/
theorem interface_root_field_is_lost :
    let ns := ofName (some "ns") []
    ∃ document, parseSchema "interface Query { hello: Int }" = .ok document ∧
      "Query" ∈ (RootTypes.ofDocument document).names ∧
      document.declares = [(⟨"Query", "hello"⟩, false)] ∧
      (ns.applyToDocument document).declares = [(⟨"Query", "ns_hello"⟩, false)] ∧
      ns.applyToFieldConfigs [] document = [] ∧
      ¬ MapsBack (ns.applyToFieldConfigs [] document) ⟨"Query", "ns_hello"⟩ "hello" := by
  intro ns
  obtain ⟨document, hdocument, hroot, hbefore, hafter, hnone⟩ :
      ∃ document ∈ (parseSchema "interface Query { hello: Int }").toOption,
        "Query" ∈ (RootTypes.ofDocument document).names ∧
        document.declares = [(⟨"Query", "hello"⟩, false)] ∧
        (ns.applyToDocument document).declares = [(⟨"Query", "ns_hello"⟩, false)] ∧
        ns.applyToFieldConfigs [] document = [] := by
    decide +kernel
  refine ⟨document, mem_toOption.1 hdocument, hroot, hbefore, hafter, hnone, ?_⟩
  rintro ⟨config, h, -⟩
  simp [hnone] at h

end Namespace

end Supergraph
