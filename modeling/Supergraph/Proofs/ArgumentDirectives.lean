import Supergraph.Proofs.Classify
import Supergraph.Proofs.DocumentMaps
import Supergraph.Proofs.Results

/-!
# Directives of arguments

A classification asks of every directive within a field whether it says `external`, be it applied to
the field or to one of its arguments. So directives of arguments should not count, but one does.

**Theorem (`classify_withoutArgumentDirectives`).** A mark on an argument counts exactly as if it
stood on the field, and no other directive of an argument counts at all. Without the directives of
its arguments a document fails to be classified with the same error. If it is classified, and
declares no field twice, the result is the same exactly if every field that only its arguments mark
belongs to a root type, in a container whose keys select nothing.

**Proof.** Neither change touches a name, so it shows in a classification by the roles of the
occurrences alone (`classification_mapFields`), and where no field is declared twice every role
shows (`keepsRoles_of_classification_mapFields`). What remains is to compare one occurrence with and
without the mark (`sameRole_withoutArgumentDirectives_iff`).
-/

namespace Supergraph

/-! ## Changes within fields -/

/-- A change of fields that keeps their names and those of their arguments. -/
structure KeepsFieldNames (f : String → Field → Field) : Prop where
  name : ∀ typeName field, (f typeName field).name = field.name
  arguments : ∀ typeName field,
    (f typeName field).arguments.map (·.name) = field.arguments.map (·.name)

namespace Occurrence

/-- Two occurrences of a field with the same arguments that a classification does not tell apart. -/
structure SameRole (roots : RootTypes) (o o' : Occurrence) : Prop where
  rootNode : o'.IsRootNode roots ↔ o.IsRootNode roots
  childNode : o'.IsChildNode roots ↔ o.IsChildNode roots
  required : o'.required = o.required

variable {f : String → Field → Field} (hf : KeepsFieldNames f) (o : Occurrence)

include hf

theorem coordinate_mapFields : (o.mapFields f).coordinate = o.coordinate :=
  congrArg (Coordinate.mk _) (hf.name ..)

theorem argumentNames_mapFields : (o.mapFields f).argumentNames = o.argumentNames :=
  hf.arguments ..

theorem isKey_mapFields : (o.mapFields f).IsKey ↔ o.IsKey := by
  have hname : (o.mapFields f).field.name = o.field.name := hf.name ..
  rw [IsKey, hname]
  rfl

end Occurrence

namespace Document

variable {f : String → Field → Field} {document : Document} {retypings : List ArgumentRetyping}

/-- The roles of the occurrences in a document stay when its fields are changed. -/
def KeepsRoles (f : String → Field → Field) (document : Document) : Prop :=
  ∀ o ∈ document.occurrences, o.SameRole (RootTypes.ofDocument document) (o.mapFields f)

variable (hf : KeepsFieldNames f)

include hf

theorem fieldsWith_mapFields {p q : Occurrence → Prop} [DecidablePred p] [DecidablePred q]
    (h : ∀ o ∈ document.occurrences, q (o.mapFields f) ↔ p o) :
    (document.mapFields f).fieldsWith q = document.fieldsWith p := by
  rw [fieldsWith, fieldsWith, occurrences_mapFields, List.filter_map, List.map_map]
  have hfilter : document.occurrences.filter ((fun o => decide (q o)) ∘ (·.mapFields f)) =
      document.occurrences.filter (fun o => decide (p o)) :=
    List.filter_congr fun o ho => decide_eq_decide.2 (h o ho)
  rw [hfilter]
  exact List.map_congr_left fun o _ => o.coordinate_mapFields hf

theorem occurrencesOf_mapFields (field : Coordinate) :
    (document.mapFields f).occurrencesOf field =
      (document.occurrencesOf field).map (·.mapFields f) := by
  rw [occurrencesOf, occurrencesOf, occurrences_mapFields, List.filter_map]
  simp only [Function.comp_def, Occurrence.coordinate_mapFields hf]

theorem fieldConfig_mapFields
    (h : ∀ o ∈ document.occurrences, (o.mapFields f).required = o.required) (field : Coordinate) :
    (document.mapFields f).fieldConfig retypings field = document.fieldConfig retypings field := by
  have hrequired : ((document.mapFields f).occurrencesOf field).flatMap (·.required) =
      (document.occurrencesOf field).flatMap (·.required) := by
    rw [occurrencesOf_mapFields hf, List.flatMap_map]
    exact List.flatMap_congr fun o ho => h o (List.mem_filter.1 ho).1
  have harguments : ((document.mapFields f).occurrencesOf field).flatMap (·.argumentNames) =
      (document.occurrencesOf field).flatMap (·.argumentNames) := by
    rw [occurrencesOf_mapFields hf, List.flatMap_map]
    exact List.flatMap_congr fun o _ => o.argumentNames_mapFields hf
  simp only [fieldConfig, hrequired, harguments]

/-- A change shows in a classification by the roles of the occurrences alone. -/
theorem classification_mapFields (h : document.KeepsRoles f) :
    (document.mapFields f).classification retypings = document.classification retypings := by
  have hroots := RootTypes.ofDocument_mapFields f document
  have hrequired : ∀ o ∈ document.occurrences, (o.mapFields f).required = o.required :=
    fun o ho => (h o ho).required
  have hroot := fieldsWith_mapFields hf fun o ho => (h o ho).rootNode
  have hchild := fieldsWith_mapFields hf fun o ho => (h o ho).childNode
  have hconfigured := fieldsWith_mapFields hf (p := Occurrence.IsConfigured)
    (q := Occurrence.IsConfigured) fun o ho => by
      rw [Occurrence.IsConfigured, o.argumentNames_mapFields hf, hrequired o ho]
      rfl
  simp only [classification, hroots, hroot, hchild, hconfigured,
    funext (fieldConfig_mapFields hf hrequired)]

end Document

/-! ## Documents that declare no field twice -/

namespace Document

section Distinct

variable {document : Document} (retypings : List ArgumentRetyping)
  (hfields : (document.occurrences.map (·.coordinate)).Nodup) {o : Occurrence}
  (ho : o ∈ document.occurrences)

include hfields ho

theorem mem_fieldsWith_of_nodup {p : Occurrence → Prop} [DecidablePred p] :
    o.coordinate ∈ document.fieldsWith p ↔ p o := by
  constructor
  · intro h
    obtain ⟨o', ho', e⟩ := List.mem_map.1 h
    obtain ⟨ho', hp⟩ := List.mem_filter.1 ho'
    obtain rfl : o' = o := List.inj_on_of_nodup_map hfields ho' ho e
    exact of_decide_eq_true hp
  · exact fun hp => List.mem_map_of_mem (List.mem_filter.2 ⟨ho, decide_eq_true hp⟩)

theorem mem_rootNodes_of_nodup :
    o.coordinate ∈ (document.classification retypings).rootNodes.coordinates ↔
      o.IsRootNode (RootTypes.ofDocument document) :=
  NodeList.mem_coordinates_group.trans (mem_fieldsWith_of_nodup hfields ho)

theorem mem_childNodes_of_nodup :
    o.coordinate ∈ (document.classification retypings).childNodes.coordinates ↔
      o.IsChildNode (RootTypes.ofDocument document) :=
  NodeList.mem_coordinates_group.trans (mem_fieldsWith_of_nodup hfields ho)

/-- A field has a configuration that requires others exactly if its occurrence does. -/
theorem exists_requires_iff_of_nodup :
    (∃ config ∈ (document.classification retypings).fields,
      config.coordinate = o.coordinate ∧ config.requires ≠ []) ↔ o.required ≠ [] := by
  have hof : document.occurrencesOf o.coordinate = [o] := filter_key_of_mem hfields ho
  have hrequires : (document.fieldConfig retypings o.coordinate).requires =
      o.required.eraseDups := by
    simp only [fieldConfig, hof, List.flatMap_singleton]
  have hempty : o.required.eraseDups = [] ↔ o.required = [] := by
    simp only [List.eq_nil_iff_forall_not_mem, List.mem_eraseDups]
  constructor
  · rintro ⟨config, hconfig, hcoordinate, hne⟩
    obtain ⟨field, -, rfl⟩ := List.mem_map.1 hconfig
    obtain rfl : field = o.coordinate := hcoordinate
    exact mt hempty.2 (hrequires ▸ hne)
  · intro hne
    have hconfigured : o.coordinate ∈ document.fieldsWith (·.IsConfigured) :=
      (mem_fieldsWith_of_nodup hfields ho).2 (.inr hne)
    exact ⟨_, List.mem_map_of_mem (List.mem_eraseDups.2 hconfigured), rfl,
      hrequires ▸ mt hempty.1 hne⟩

end Distinct

/-- Where no field is declared twice, a classification shows the role of every occurrence. -/
theorem keepsRoles_of_classification_mapFields {f : String → Field → Field}
    (hf : KeepsFieldNames f) {document : Document} {retypings : List ArgumentRetyping}
    (hfields : (document.occurrences.map (·.coordinate)).Nodup)
    (h : (document.mapFields f).classification retypings = document.classification retypings) :
    document.KeepsRoles f := by
  intro o ho
  have hcoordinate := o.coordinate_mapFields hf
  have hfields' : ((document.mapFields f).occurrences.map (·.coordinate)).Nodup := by
    rw [occurrences_mapFields, List.map_map]
    simpa only [Function.comp_def, Occurrence.coordinate_mapFields hf] using hfields
  have ho' : o.mapFields f ∈ (document.mapFields f).occurrences :=
    occurrences_mapFields f document ▸ List.mem_map_of_mem ho
  refine ⟨?root, ?child, ?required⟩
  case root =>
    have hroot := mem_rootNodes_of_nodup retypings hfields' ho'
    rw [h, hcoordinate, mem_rootNodes_of_nodup retypings hfields ho,
      RootTypes.ofDocument_mapFields] at hroot
    exact hroot.symm
  case child =>
    have hchild := mem_childNodes_of_nodup retypings hfields' ho'
    rw [h, hcoordinate, mem_childNodes_of_nodup retypings hfields ho,
      RootTypes.ofDocument_mapFields] at hchild
    exact hchild.symm
  case required =>
    have hrequired := exists_requires_iff_of_nodup retypings hfields' ho'
    rw [h, hcoordinate, exists_requires_iff_of_nodup retypings hfields ho] at hrequired
    -- An occurrence requires all of the key or nothing, and the key is the same for both.
    have hkeys : (o.mapFields f).container.keyNames = o.container.keyNames := rfl
    unfold Occurrence.required at hrequired ⊢
    rw [hkeys] at hrequired ⊢
    split_ifs at hrequired ⊢ <;> simp_all

end Document

/-! ## Marks on arguments -/

namespace Field

/-- The field without the directives of its arguments. -/
def withoutArgumentDirectives (field : Field) : Field :=
  { field with arguments := field.arguments.map fun argument => { argument with directives := [] } }

/-- The field without the directives of its arguments, but marked itself if one of them is. -/
def withOwnMark (field : Field) : Field :=
  { field.withoutArgumentDirectives with
    directives :=
      if field.arguments.any fun argument => Container.carries argument.directives "external" then
        ⟨"external", []⟩ :: field.directives
      else field.directives }

/-- Whether a field counts as another service's because of its arguments alone. -/
def IsMarkedByArgument (field : Field) : Prop :=
  field.isExternal ∧ ¬ Container.carries field.directives "external"

instance : DecidablePred IsMarkedByArgument := fun _ => inferInstanceAs (Decidable (_ ∧ _))

theorem isExternal_of_arguments {field : Field} (h : ∀ a ∈ field.arguments, a.directives = []) :
    field.isExternal = Container.carries field.directives "external" := by
  have hnone : (field.arguments.any fun a => Container.carries a.directives "external") = false :=
    List.any_eq_false.2 fun a ha => by simp [h a ha, Container.carries]
  rw [isExternal, hnone, Bool.false_or]

theorem directives_of_mem_withoutArgumentDirectives {field : Field} :
    ∀ a ∈ field.withoutArgumentDirectives.arguments, a.directives = [] := by
  intro a ha
  obtain ⟨argument, -, rfl⟩ := List.mem_map.1 ha
  rfl

theorem isExternal_withoutArgumentDirectives (field : Field) :
    field.withoutArgumentDirectives.isExternal =
      Container.carries field.directives "external" :=
  isExternal_of_arguments directives_of_mem_withoutArgumentDirectives

theorem isExternal_withOwnMark (field : Field) :
    field.withOwnMark.isExternal = field.isExternal := by
  have hown : field.withOwnMark.isExternal =
      Container.carries field.withOwnMark.directives "external" :=
    isExternal_of_arguments directives_of_mem_withoutArgumentDirectives
  rw [hown, withOwnMark, isExternal]
  by_cases h : field.arguments.any fun a => Container.carries a.directives "external"
  · rw [if_pos h, h, Bool.true_or]
    rfl
  · rw [if_neg h, Bool.eq_false_iff.2 h, Bool.false_or]

theorem keepsFieldNames_withoutArgumentDirectives :
    KeepsFieldNames fun _ field => field.withoutArgumentDirectives where
  name _ _ := rfl
  arguments _ field := by simp [withoutArgumentDirectives]

theorem keepsFieldNames_withOwnMark : KeepsFieldNames fun _ field => field.withOwnMark where
  name _ _ := rfl
  arguments _ field := by simp [withOwnMark, withoutArgumentDirectives]

end Field

namespace Occurrence

variable {roots : RootTypes} {o : Occurrence}

/-- Whether it makes no difference that the field is another service's. -/
def IsIndifferent (roots : RootTypes) (o : Occurrence) : Prop :=
  o.container.name ∈ roots.names ∧ o.container.keyNames = []

instance (roots : RootTypes) : DecidablePred (IsIndifferent roots) :=
  fun _ => inferInstanceAs (Decidable (_ ∧ _))

/-- Of the marks on a field it only counts whether there is one. -/
theorem sameRole_of_isExternal {f : String → Field → Field} (hf : KeepsFieldNames f)
    (h : (f o.container.name o.field).isExternal = o.field.isExternal) :
    o.SameRole roots (o.mapFields f) := by
  have hkey := o.isKey_mapFields hf
  have hexternal : (o.mapFields f).field.isExternal = o.field.isExternal := h
  constructor
  · rw [IsRootNode, hexternal]; rfl
  · rw [IsChildNode, hexternal, hkey]; rfl
  · simp only [required, RequiresKey, hexternal, hkey]; rfl

/-- Taking the last mark from a field is noticed unless the field is indifferent. -/
theorem sameRole_iff_of_unmarked {f : String → Field → Field} (hf : KeepsFieldNames f)
    (h : o.field.isExternal) (h' : (f o.container.name o.field).isExternal = false) :
    o.SameRole roots (o.mapFields f) ↔ o.IsIndifferent roots := by
  have hkey := o.isKey_mapFields hf
  have hexternal' : (o.mapFields f).field.isExternal = false := h'
  -- With the mark a field is a root node for its type alone, and without it also for the key.
  have hroot : o.IsRootNode roots ↔ o.container.name ∈ roots.names := by
    simp [IsRootNode, h]
  have hroot' : (o.mapFields f).IsRootNode roots ↔
      o.container.name ∈ roots.names ∨ o.container.isEntity := by
    rw [IsRootNode, hexternal']
    simp [mapFields, Container.mapFields, Container.isEntity]
  have hchild : o.IsChildNode roots ↔ o.IsKey := by
    simp [IsChildNode, h]
  have hchild' : (o.mapFields f).IsChildNode roots ↔
      o.container.name ∉ roots.names ∧ ¬ (o.container.extendsType ∧ o.container.isEntity) := by
    rw [IsChildNode, hexternal']
    simp [mapFields, Container.mapFields, Container.isEntity, Container.extendsType]
  have hrequired : o.required = [] := if_neg fun hrequires => hrequires.2.1 h
  have hrequires' : (o.mapFields f).RequiresKey ↔
      o.container.isEntity ∧ (o.container.extendsType ∨ ¬ o.IsKey) := by
    rw [RequiresKey, hexternal', hkey]
    simp [mapFields, Container.mapFields, Container.isEntity, Container.extendsType]
  constructor
  · rintro ⟨hrootNode, hchildNode, hrequired'⟩
    rw [hroot', hroot] at hrootNode
    rw [hchild', hchild] at hchildNode
    rw [hrequired] at hrequired'
    -- A field of an entity would change the root nodes, and any other one the child nodes.
    by_cases hentity : o.container.isEntity
    · have hname := hrootNode.1 (.inr hentity)
      have hnot : ¬ o.IsKey := fun hk => (hchildNode.2 hk).1 hname
      exact ⟨hname, (if_pos (hrequires'.2 ⟨hentity, .inr hnot⟩)).symm.trans hrequired'⟩
    · have hkeys := Container.keyNames_of_not_isEntity hentity
      have hnot : ¬ o.IsKey := by simp [IsKey, hkeys]
      refine ⟨by_contra fun hname => hnot (hchildNode.1 ⟨hname, ?_⟩), hkeys⟩
      exact fun hextends => hentity hextends.2
  · rintro ⟨hname, hkeys⟩
    have hnot : ¬ o.IsKey := by simp [IsKey, hkeys]
    refine ⟨?_, ?_, ?_⟩
    · rw [hroot', hroot]
      exact iff_of_true (.inl hname) hname
    · rw [hchild', hchild]
      exact iff_of_false (fun hc => hc.1 hname) hnot
    · have hkeys' : (o.mapFields f).container.keyNames = [] := hkeys
      rw [hrequired, required, hkeys', ite_self]

theorem sameRole_withoutArgumentDirectives_iff :
    o.SameRole roots (o.mapFields fun _ field => field.withoutArgumentDirectives) ↔
      (o.field.IsMarkedByArgument → o.IsIndifferent roots) := by
  have hf := Field.keepsFieldNames_withoutArgumentDirectives
  have hplain := o.field.isExternal_withoutArgumentDirectives
  by_cases hmarked : o.field.IsMarkedByArgument
  · rw [imp_iff_right hmarked]
    exact sameRole_iff_of_unmarked hf hmarked.1 (hplain.trans (Bool.eq_false_iff.2 hmarked.2))
  · refine iff_of_true (sameRole_of_isExternal hf (hplain.trans ?_)) fun h => absurd h hmarked
    -- Either nothing marks the field, or a mark of its own stays.
    have hown := not_and_not_right.1 hmarked
    rw [Bool.eq_iff_iff]
    exact ⟨fun h => Bool.or_eq_true_iff.2 (.inr h), hown⟩

end Occurrence

/-! ## Documents without directives of arguments -/

namespace Document

/-- The document without the directives of the arguments of fields. -/
def withoutArgumentDirectives (document : Document) : Document :=
  document.mapFields fun _ field => field.withoutArgumentDirectives

/-- The document without the directives of the arguments of fields, where a field is marked itself
if one of its arguments was. -/
def withOwnMarks (document : Document) : Document :=
  document.mapFields fun _ field => field.withOwnMark

/-- The fields that only their arguments mark make no difference. -/
def MarksIndifferently (document : Document) : Prop :=
  ∀ o ∈ document.occurrences,
    o.field.IsMarkedByArgument → o.IsIndifferent (RootTypes.ofDocument document)

instance (document : Document) : Decidable document.MarksIndifferently :=
  inferInstanceAs (Decidable (∀ o ∈ _, _ → _))

variable {document : Document} {retypings : List ArgumentRetyping}

theorem keepsRoles_withoutArgumentDirectives_iff :
    document.KeepsRoles (fun _ field => field.withoutArgumentDirectives) ↔
      document.MarksIndifferently :=
  forall₂_congr fun _ _ => Occurrence.sameRole_withoutArgumentDirectives_iff

theorem classification_withoutArgumentDirectives (h : document.MarksIndifferently) :
    document.withoutArgumentDirectives.classification retypings =
      document.classification retypings :=
  classification_mapFields Field.keepsFieldNames_withoutArgumentDirectives
    (keepsRoles_withoutArgumentDirectives_iff.2 h)

theorem classification_withoutArgumentDirectives_iff
    (hfields : (document.occurrences.map (·.coordinate)).Nodup) :
    document.withoutArgumentDirectives.classification retypings =
      document.classification retypings ↔ document.MarksIndifferently := by
  refine ⟨fun h => ?_, classification_withoutArgumentDirectives⟩
  exact keepsRoles_withoutArgumentDirectives_iff.1 (keepsRoles_of_classification_mapFields
    Field.keepsFieldNames_withoutArgumentDirectives hfields h)

theorem classification_withOwnMarks :
    document.withOwnMarks.classification retypings = document.classification retypings :=
  classification_mapFields Field.keepsFieldNames_withOwnMark fun o _ =>
    Occurrence.sameRole_of_isExternal Field.keepsFieldNames_withOwnMark
      o.field.isExternal_withOwnMark

end Document

theorem classify_mapFields (f : String → Field → Field) (schema : Document)
    (service : Option Document) (retypings : List ArgumentRetyping) :
    classify (schema.mapFields f) (service.map (·.mapFields f)) retypings =
      okUnless ((service.getD schema).keyTexts.findSome? FieldSet.errorIn?)
        (((service.getD schema).mapFields f).classification retypings) := by
  have hdocument : (service.map (·.mapFields f)).getD (schema.mapFields f) =
      (service.getD schema).mapFields f := Option.getD_map ..
  rw [classify_eq, hdocument, Document.keyTexts_mapFields]

theorem okUnless_eq_okUnless_iff {α : Type} {error? : Option Error} {a b : α} :
    okUnless error? a = okUnless error? b ↔
      (∃ error, okUnless error? b = .error error) ∨ a = b := by
  cases error? <;> simp [okUnless]

/-- **A directive of an argument counts only as a mark of its field.** As such it counts unless it
makes no difference whether the field is another service's. -/
theorem classify_withoutArgumentDirectives (schema : Document) (service : Option Document)
    (retypings : List ArgumentRetyping) :
    let document := service.getD schema
    let result := classify schema service retypings
    let plain := classify schema.withoutArgumentDirectives
      (service.map (·.withoutArgumentDirectives)) retypings
    classify schema.withOwnMarks (service.map (·.withOwnMarks)) retypings = result ∧
      (∀ error, plain = .error error ↔ result = .error error) ∧
      (document.MarksIndifferently → plain = result) ∧
      ((document.occurrences.map (·.coordinate)).Nodup →
        (plain = result ↔ (∃ error, result = .error error) ∨ document.MarksIndifferently)) := by
  intro document result plain
  have hresult : result = okUnless (document.keyTexts.findSome? FieldSet.errorIn?)
      (document.classification retypings) := classify_eq ..
  have hplain : plain = okUnless (document.keyTexts.findSome? FieldSet.errorIn?)
      (document.withoutArgumentDirectives.classification retypings) := classify_mapFields ..
  refine ⟨?ownMarks, ?errors, ?sufficient, ?exact⟩
  case ownMarks =>
    refine (classify_mapFields ..).trans (hresult ▸ congrArg (okUnless _) ?_)
    exact Document.classification_withOwnMarks
  case errors =>
    intro error
    rw [hplain, hresult]
    cases document.keyTexts.findSome? FieldSet.errorIn? <;> simp [okUnless]
  case sufficient =>
    intro h
    rw [hplain, hresult, Document.classification_withoutArgumentDirectives h]
  case exact =>
    intro hfields
    rw [hplain, hresult, okUnless_eq_okUnless_iff,
      Document.classification_withoutArgumentDirectives_iff hfields]

/-- A search whose argument is marked; a book is found by it, and another argument is deprecated. -/
def searches : Document := ⟨[
  .type none ⟨"Query", [], .container .object [] [
    ⟨none, "find", [⟨none, "text", .named "String", none, [⟨"external", []⟩]⟩],
      .named "Book", []⟩]⟩,
  .type none ⟨"Book", [⟨"key", [("fields", .string "id")]⟩], .container .object [] [
    ⟨none, "id", [], .named "ID", []⟩,
    ⟨none, "pages", [⟨none, "first", .named "Int", none, [⟨"deprecated", []⟩]⟩],
      .named "Int", []⟩]⟩]⟩

/-- The same mark on an argument of the book. -/
def markedPages : Document := ⟨[
  .type none ⟨"Query", [], .container .object [] [⟨none, "find", [], .named "Book", []⟩]⟩,
  .type none ⟨"Book", [⟨"key", [("fields", .string "id")]⟩], .container .object [] [
    ⟨none, "id", [], .named "ID", []⟩,
    ⟨none, "pages", [⟨none, "first", .named "Int", none, [⟨"external", []⟩]⟩],
      .named "Int", []⟩]⟩]⟩

/-- On the root field the mark makes no difference, on the field of the book it does. -/
theorem classify_withoutArgumentDirectives_searches :
    classify searches.withoutArgumentDirectives none [] = classify searches none [] ∧
      searches.MarksIndifferently ∧
      (markedPages.occurrences.map (·.coordinate)).Nodup ∧
      classify markedPages.withoutArgumentDirectives none [] ≠ classify markedPages none [] := by
  have hindifferent : searches.MarksIndifferently := by decide +kernel
  have hfields : (markedPages.occurrences.map (·.coordinate)).Nodup := by decide
  obtain ⟨-, -, hsame, -⟩ := classify_withoutArgumentDirectives searches none []
  obtain ⟨-, -, -, hexact⟩ := classify_withoutArgumentDirectives markedPages none []
  refine ⟨hsame hindifferent, hindifferent, hfields, fun h => ?_⟩
  rcases (hexact hfields).1 h with ⟨error, herror⟩ | hmarks
  · have hok : classify markedPages none [] = .ok (markedPages.classification []) :=
      classify_eq_ok.2 ⟨by decide +kernel, rfl⟩
    rw [hok] at herror
    cases herror
  · exact absurd hmarks (by decide +kernel)

/-- The mark on its argument takes a field out of the classification. -/
theorem marked_argument_hides_field :
    ∃ document c plain,
      parseSchema "type Query \x7b a: A \x7d type A \x7b f(x: Int @external): Int \x7d" =
        .ok document ∧
      classify document none [] = .ok c ∧
      classify document.withoutArgumentDirectives none [] = .ok plain ∧
      c ≠ plain ∧
      (∀ o ∈ document.occurrences, ¬ Container.carries o.field.directives "external") ∧
      c.rootNodes = [⟨"Query", ["a"]⟩] ∧ c.childNodes = [] ∧
      plain.rootNodes = [⟨"Query", ["a"]⟩] ∧ plain.childNodes = [⟨"A", ["f"]⟩] := by
  obtain ⟨document, hdocument, c, hc, plain, hplain, h⟩ :
      ∃ document ∈ (parseSchema
        "type Query \x7b a: A \x7d type A \x7b f(x: Int @external): Int \x7d").toOption,
      ∃ c ∈ (classify document none []).toOption,
      ∃ plain ∈ (classify document.withoutArgumentDirectives none []).toOption,
        c ≠ plain ∧
        (∀ o ∈ document.occurrences, ¬ Container.carries o.field.directives "external") ∧
        c.rootNodes = [⟨"Query", ["a"]⟩] ∧ c.childNodes = [] ∧
        plain.rootNodes = [⟨"Query", ["a"]⟩] ∧ plain.childNodes = [⟨"A", ["f"]⟩] := by
    decide +kernel
  exact ⟨document, c, plain, mem_toOption.1 hdocument, mem_toOption.1 hc, mem_toOption.1 hplain, h⟩

end Supergraph
