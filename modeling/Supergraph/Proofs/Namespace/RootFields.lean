import Supergraph.Proofs.Classify
import Supergraph.Proofs.Namespace.Names

/-!
# The configurations of root fields

A root field that a namespace moves is found in the backend under its old name, and its
configuration says so by its path. Some of these configurations were there before, because the
field has arguments; the others are added, one for each moved root field that has none yet
(`foldl_addRootField`).

So in a root type exactly the moved fields have a path, which has one element (`path_cases`,
`exists_path`).
-/

namespace Supergraph

namespace Namespace

/-- The configuration that a moved root field has if there is nothing else to say. -/
def rootFieldConfig (ns : Namespace) (field : Coordinate) : FieldConfig :=
  { FieldConfig.blank ⟨field.typeName, ns.qualify field.fieldName⟩ with path := [field.fieldName] }

/-- Configurations are only added at the end, and in the end every moved field has one. -/
theorem foldl_addRootField (ns : Namespace) (fields : List Coordinate)
    (configs : List FieldConfig) :
    ∃ rest, fields.foldl ns.addRootField configs = configs ++ rest ∧
      (∀ config ∈ rest, ∃ field ∈ fields,
        ns.qualifiesRootField field.fieldName ∧ config = ns.rootFieldConfig field) ∧
      ∀ field ∈ fields, ns.qualifiesRootField field.fieldName →
        ∃ config ∈ configs ++ rest,
          config.coordinate = ⟨field.typeName, ns.qualify field.fieldName⟩ := by
  -- From the end, since a configuration that was added counts for the fields after it.
  induction fields using List.reverseRecOn with
  | nil => exact ⟨[], by simp⟩
  | append_singleton fields field ih =>
    obtain ⟨rest, hfold, hrest, hall⟩ := ih
    have hrest' : ∀ config ∈ rest, ∃ other ∈ fields ++ [field],
        ns.qualifiesRootField other.fieldName ∧ config = ns.rootFieldConfig other :=
      fun config h => by
        obtain ⟨other, hother, h⟩ := hrest config h
        exact ⟨other, List.mem_append_left _ hother, h⟩
    rw [List.foldl_append, hfold, List.foldl_cons, List.foldl_nil, addRootField]
    split_ifs with hadd
    · obtain ⟨hq, -⟩ := hadd
      refine ⟨rest ++ [ns.rootFieldConfig field], (List.append_assoc ..), ?_, ?_⟩
      · intro config h
        rcases List.mem_append.1 h with h | h
        · exact hrest' config h
        · exact ⟨field, by simp, hq, List.mem_singleton.1 h⟩
      · intro other h hother
        rw [← List.append_assoc]
        rcases List.mem_append.1 h with h | h
        · obtain ⟨config, hconfig, h⟩ := hall other h hother
          exact ⟨config, List.mem_append_left _ hconfig, h⟩
        · obtain rfl := List.mem_singleton.1 h
          exact ⟨_, List.mem_append_right _ (List.mem_singleton_self _), rfl⟩
    · refine ⟨rest, rfl, hrest', fun other h hother => ?_⟩
      rcases List.mem_append.1 h with h | h
      · exact hall other h hother
      · obtain rfl := List.mem_singleton.1 h
        have hpresent : (configs ++ rest).any
            (·.coordinate = ⟨other.typeName, ns.qualify other.fieldName⟩) := by
          by_contra hnone
          exact hadd ⟨hother, by simpa using hnone⟩
        obtain ⟨config, hconfig, h⟩ := List.any_eq_true.1 hpresent
        exact ⟨config, hconfig, of_decide_eq_true h⟩

theorem mem_rootFields {roots : RootTypes} {document : Document} {field : Coordinate} :
    field ∈ rootFields roots document ↔ ∃ container ∈ document.containers,
      container.kind = .object ∧ container.name ∈ roots.names ∧
        ∃ f ∈ container.fields, field = ⟨container.name, f.name⟩ := by
  simp only [rootFields, List.mem_flatMap, List.mem_filter, List.mem_map, decide_eq_true_eq,
    isRoot_iff, and_assoc, eq_comm (a := field)]

section Paths

variable {ns : Namespace} {p : String} (hp : ns.name = some p) {document : Document}
  {configs : List FieldConfig} (hfits : ns.Fits (.ofDocument document))

include hp

omit hfits in
theorem qualifiesRootField_iff {name : String} :
    ns.qualifiesRootField name ↔ name ∉ ns.skippedRootFields := by
  simp [qualifiesRootField, isEmpty_eq_false hp]

include hfits

/-- Only moved root fields have a path, and it names the field in the backend. -/
theorem path_cases (hpaths : ∀ config ∈ configs, config.path = []) {config : FieldConfig}
    (h : config ∈ ns.applyToFieldConfigs configs document)
    (hroot : config.typeName ∈ (RootTypes.ofDocument document).names) :
    (config.path = [] ∧ config.fieldName ∈ ns.skippedRootFields) ∨
      ∃ name, config.path = [name] ∧ config.fieldName = ns.qualify name ∧
        name ∉ ns.skippedRootFields := by
  obtain ⟨rest, hfold, hrest, -⟩ := ns.foldl_addRootField
    (rootFields (.ofDocument document) document)
    (configs.map (ns.applyToFieldConfig (.ofDocument document)))
  rw [applyToFieldConfigs, hfold] at h
  rcases List.mem_append.1 h with h | h
  · obtain ⟨config, hconfig, rfl⟩ := List.mem_map.1 h
    unfold applyToFieldConfig at hroot ⊢
    split_ifs at hroot ⊢ with hr hq
    · exact .inr ⟨config.fieldName, rfl, rfl, (qualifiesRootField_iff hp).1 hq⟩
    · exact .inl ⟨hpaths config hconfig, not_not.1 (mt (qualifiesRootField_iff hp).2 hq)⟩
    · exact absurd (isRoot_iff.2 ((typeName_mem_names hp hfits).1 hroot)) hr
  · obtain ⟨field, -, hq, rfl⟩ := hrest config h
    exact .inr ⟨field.fieldName, rfl, rfl, (qualifiesRootField_iff hp).1 hq⟩

/-- Every moved root field has a path that names it. -/
theorem exists_path (hpaths : ∀ config ∈ configs, config.path = []) {field : Coordinate}
    (hfield : field ∈ rootFields (.ofDocument document) document)
    (hq : field.fieldName ∉ ns.skippedRootFields) :
    ∃ config ∈ ns.applyToFieldConfigs configs document,
      config.coordinate = ⟨field.typeName, ns.qualify field.fieldName⟩ ∧
        config.path = [field.fieldName] := by
  obtain ⟨rest, hfold, -, hall⟩ := ns.foldl_addRootField
    (rootFields (.ofDocument document) document)
    (configs.map (ns.applyToFieldConfig (.ofDocument document)))
  obtain ⟨config, hconfig, hcoordinate⟩ :=
    hall field hfield ((qualifiesRootField_iff hp).2 hq)
  have hmem : config ∈ ns.applyToFieldConfigs configs document := by
    rwa [applyToFieldConfigs, hfold]
  obtain ⟨htype, hname⟩ := Coordinate.mk.injEq .. ▸ hcoordinate
  have hroot : config.typeName ∈ (RootTypes.ofDocument document).names := by
    obtain ⟨container, -, -, hroot, f, -, rfl⟩ := mem_rootFields.1 hfield
    exact htype ▸ hroot
  refine ⟨config, hmem, hcoordinate, ?_⟩
  rcases path_cases hp hfits hpaths hmem hroot with ⟨-, hskipped⟩ | ⟨name, hpath, hqualify, -⟩
  · exact absurd ⟨_, hname⟩ (hfits.skipped _ hskipped)
  · rw [hpath, (qualify_inj hp).1 (hqualify.symm.trans hname)]

end Paths

/-! ## An example -/

/-- A backend that serves users, which are found by a root field. -/
def users : Document := ⟨[
  .type none ⟨"Query", [], .container .object [] [
    ⟨none, "user", [⟨none, "id", .named "ID", none, []⟩], .named "User", []⟩,
    ⟨none, "total", [], .named "Int", []⟩]⟩,
  .type none ⟨"User", [⟨"key", [("fields", .string "id")]⟩], .container .object [] [
    ⟨none, "id", [], .named "ID", []⟩,
    ⟨none, "name", [], .named "String", []⟩]⟩]⟩

theorem fits_users : (ofName (some "shop") ["total"]).Fits (.ofDocument users) := by
  have hp : (ofName (some "shop") ["total"]).name = some "shop" := rfl
  have hroots : ∀ name ∈ (RootTypes.ofDocument users).names, '_' ∉ name.toList := by decide
  have hskipped : ∀ name ∈ ["total"], '_' ∉ name.toList := by decide
  exact ⟨fun name h => not_isQualified hp (hroots name h),
    fun name h => not_isQualified hp (hskipped name h)⟩

theorem classify_users : classify users none [] = .ok (users.classification []) :=
  classify_eq_ok.2 ⟨by decide +kernel, rfl⟩

end Namespace

end Supergraph
