import Supergraph.Proofs.Classify

/-!
# Classifications of renamed documents

A `Renaming` gives new names to types and to the fields of each type. A document is a renamed form
of another one when its occurrences are the renamed occurrences of the other, in the same order.

**Theorem (`classify_renamed`).** If a renaming keeps the fields of a document apart, the
classification of the renamed document is the renamed classification of the document.

A classification compares names only with each other: occurrences are grouped by their types and
fields, and a field is looked up in the key of its container. A renaming that keeps these names
apart decides every comparison alike.
-/

namespace Supergraph

/-- New names for types, and for the fields of each type. -/
structure Renaming where
  typeName : String → String
  fieldName : String → String → String

namespace Renaming

variable (ρ : Renaming)

def coordinate (field : Coordinate) : Coordinate :=
  ⟨ρ.typeName field.typeName, ρ.fieldName field.typeName field.fieldName⟩

def node (node : TypeFields) : TypeFields :=
  ⟨ρ.typeName node.typeName, node.fieldNames.map (ρ.fieldName node.typeName)⟩

/-- The configuration of a field under its new name. -/
def config (config : FieldConfig) : FieldConfig :=
  { config with
    typeName := ρ.typeName config.typeName
    fieldName := ρ.fieldName config.typeName config.fieldName
    requires := config.requires.map (ρ.fieldName config.typeName) }

/-- Different types, and different fields of one type, get different names. -/
structure KeepsApart (fields : List Coordinate) : Prop where
  typeName : ∀ x ∈ fields, ∀ y ∈ fields,
    ρ.typeName x.typeName = ρ.typeName y.typeName → x.typeName = y.typeName
  fieldName : ∀ x ∈ fields, ∀ y ∈ fields, x.typeName = y.typeName →
    ρ.fieldName x.typeName x.fieldName = ρ.fieldName x.typeName y.fieldName →
      x.fieldName = y.fieldName

variable {ρ}

theorem KeepsApart.mono {fields others : List Coordinate} (h : ρ.KeepsApart others)
    (hsub : ∀ x ∈ fields, x ∈ others) : ρ.KeepsApart fields where
  typeName x hx y hy := h.typeName x (hsub x hx) y (hsub y hy)
  fieldName x hx y hy := h.fieldName x (hsub x hx) y (hsub y hy)

theorem KeepsApart.coordinate {fields : List Coordinate} (h : ρ.KeepsApart fields) :
    ∀ x ∈ fields, ∀ y ∈ fields, ρ.coordinate x = ρ.coordinate y → x = y := by
  intro x hx y hy e
  obtain ⟨htype, hfield⟩ := Coordinate.mk.injEq .. ▸ e
  have ht := h.typeName x hx y hy htype
  have hf := h.fieldName x hx y hy ht (ht ▸ hfield)
  cases x; cases y
  simp_all

/-- Renaming commutes with grouping. -/
theorem group_map {fields : List Coordinate} (h : ρ.KeepsApart fields) :
    NodeList.group (fields.map ρ.coordinate) = (NodeList.group fields).map ρ.node := by
  have htypes : ((fields.map ρ.coordinate).map (·.typeName)).eraseDups =
      (fields.map (·.typeName)).eraseDups.map ρ.typeName := by
    rw [List.map_map, show (·.typeName) ∘ ρ.coordinate = ρ.typeName ∘ (·.typeName) from rfl,
      ← List.map_map]
    refine eraseDups_map _ fun a ha b hb e => ?_
    obtain ⟨x, hx, rfl⟩ := List.mem_map.1 ha
    obtain ⟨y, hy, rfl⟩ := List.mem_map.1 hb
    exact h.typeName x hx y hy e
  rw [NodeList.group, NodeList.group, htypes, List.map_map, List.map_map]
  refine List.map_congr_left fun typeName ht => ?_
  obtain ⟨z, hz, rfl⟩ := List.mem_map.1 (List.mem_eraseDups.1 ht)
  -- Two types keep different names, so no fields of another type come into the group.
  have hfilter : (fields.map ρ.coordinate).filter (·.typeName = ρ.typeName z.typeName) =
      (fields.filter (·.typeName = z.typeName)).map ρ.coordinate := by
    rw [List.filter_map]
    refine congrArg (List.map _) (List.filter_congr fun x hx => decide_eq_decide.2 ?_)
    exact ⟨h.typeName x hx z hz, congrArg ρ.typeName⟩
  have hfields : ((fields.filter (·.typeName = z.typeName)).map ρ.coordinate).map (·.fieldName) =
      ((fields.filter (·.typeName = z.typeName)).map (·.fieldName)).map
        (ρ.fieldName z.typeName) := by
    rw [List.map_map, List.map_map]
    refine List.map_congr_left fun x hx => ?_
    obtain ⟨-, htype⟩ := List.mem_filter.1 hx
    simp [coordinate, of_decide_eq_true htype]
  have happart : ∀ a ∈ (fields.filter (·.typeName = z.typeName)).map (·.fieldName),
      ∀ b ∈ (fields.filter (·.typeName = z.typeName)).map (·.fieldName),
      ρ.fieldName z.typeName a = ρ.fieldName z.typeName b → a = b := by
    intro a ha b hb e
    obtain ⟨x, hx, rfl⟩ := List.mem_map.1 ha
    obtain ⟨y, hy, rfl⟩ := List.mem_map.1 hb
    obtain ⟨hx, htx⟩ := List.mem_filter.1 hx
    obtain ⟨hy, hty⟩ := List.mem_filter.1 hy
    have htx := of_decide_eq_true htx
    have hty := of_decide_eq_true hty
    exact h.fieldName x hx y hy (htx.trans hty.symm) (by rwa [htx])
  simp only [Function.comp_apply, hfilter, hfields, eraseDups_map _ happart, node]

end Renaming

/-! ## Renamed documents -/

namespace Document

/-- The fields that a document speaks of: those it declares, and those in the keys of its
containers. -/
def namedFields (document : Document) : List Coordinate :=
  document.occurrences.map (·.coordinate) ++
    document.containers.flatMap fun container => container.keyNames.map (⟨container.name, ·⟩)

theorem coordinate_mem_namedFields {document : Document} {o : Occurrence}
    (h : o ∈ document.occurrences) : o.coordinate ∈ document.namedFields :=
  List.mem_append_left _ (List.mem_map_of_mem h)

theorem key_mem_namedFields {document : Document} {o : Occurrence} {name : String}
    (h : o ∈ document.occurrences) (hname : name ∈ o.container.keyNames) :
    ⟨o.container.name, name⟩ ∈ document.namedFields :=
  List.mem_append_right _ (List.mem_flatMap.2
    ⟨o.container, (mem_occurrences.1 h).1, List.mem_map_of_mem hname⟩)

end Document

variable (ρ : Renaming)

/-- `renamed` is the occurrence `o` under new names, in a document with other root types. -/
structure Occurrence.Renames (roots renamedRoots : RootTypes) (o renamed : Occurrence) : Prop where
  coordinate : renamed.coordinate = ρ.coordinate o.coordinate
  isRoot : renamed.container.name ∈ renamedRoots.names ↔ o.container.name ∈ roots.names
  isEntity : renamed.container.isEntity = o.container.isEntity
  extendsType : renamed.container.extendsType = o.container.extendsType
  keyNames : renamed.container.keyNames =
    o.container.keyNames.map (ρ.fieldName o.container.name)
  isExternal : renamed.field.isExternal = o.field.isExternal
  argumentNames : renamed.argumentNames = o.argumentNames

/-- `renamed` declares the fields of `document` under new names, in the same order, and its keys can
be read if those of `document` can. -/
structure Document.Renames (document renamed : Document) : Prop where
  occurrences : List.Forall₂
    (Occurrence.Renames ρ (RootTypes.ofDocument document) (RootTypes.ofDocument renamed))
    document.occurrences renamed.occurrences
  keysRead : document.keyTexts.findSome? FieldSet.errorIn? = none →
    renamed.keyTexts.findSome? FieldSet.errorIn? = none

variable {ρ}

namespace Occurrence.Renames

variable {roots renamedRoots : RootTypes} {o renamed : Occurrence}

theorem isRootNode (h : Renames ρ roots renamedRoots o renamed) :
    renamed.IsRootNode renamedRoots ↔ o.IsRootNode roots := by
  rw [IsRootNode, IsRootNode, h.isRoot, h.isEntity, h.isExternal]

theorem isKey {document : Document} (h : Renames ρ roots renamedRoots o renamed)
    (hapart : ρ.KeepsApart document.namedFields) (ho : o ∈ document.occurrences) :
    renamed.IsKey ↔ o.IsKey := by
  obtain ⟨-, hname⟩ := Coordinate.mk.injEq .. ▸ h.coordinate
  rw [IsKey, IsKey, h.keyNames, hname, List.mem_map]
  constructor
  · rintro ⟨name, hmem, e⟩
    have hsame : name = o.field.name := hapart.fieldName _ (Document.key_mem_namedFields ho hmem) _
      (Document.coordinate_mem_namedFields ho) rfl e
    exact hsame ▸ hmem
  · exact fun hmem => ⟨o.field.name, hmem, rfl⟩

theorem isChildNode (h : Renames ρ roots renamedRoots o renamed) (hkey : renamed.IsKey ↔ o.IsKey) :
    renamed.IsChildNode renamedRoots ↔ o.IsChildNode roots := by
  rw [IsChildNode, IsChildNode, h.isRoot, h.isEntity, h.isExternal, h.extendsType, hkey]

theorem required (h : Renames ρ roots renamedRoots o renamed) (hkey : renamed.IsKey ↔ o.IsKey) :
    renamed.required = o.required.map (ρ.fieldName o.container.name) := by
  have hrequires : renamed.RequiresKey ↔ o.RequiresKey := by
    rw [RequiresKey, RequiresKey, h.isEntity, h.isExternal, h.extendsType, hkey]
  by_cases hr : o.RequiresKey
  · rw [Occurrence.required, Occurrence.required, if_pos hr, if_pos (hrequires.2 hr), h.keyNames]
  · rw [Occurrence.required, Occurrence.required, if_neg hr, if_neg (mt hrequires.1 hr),
      List.map_nil]

end Occurrence.Renames

/-! ## Rows of renamed occurrences -/

section Rows

variable {α β γ : Type} {R : α → β → Prop} {as : List α} {bs : List β}

theorem forall₂_filter (h : List.Forall₂ R as bs) {p : α → Prop} {q : β → Prop} [DecidablePred p]
    [DecidablePred q] (hpq : ∀ a ∈ as, ∀ b, R a b → (q b ↔ p a)) :
    List.Forall₂ R (as.filter p) (bs.filter q) := by
  induction h with
  | nil => exact .nil
  | @cons a b as bs hab _ ih =>
    have hhead := hpq a List.mem_cons_self b hab
    have ih := ih fun a ha => hpq a (List.mem_cons_of_mem _ ha)
    by_cases hp : p a
    · simpa [hp, hhead.2 hp] using And.intro hab ih
    · simpa [hp, mt hhead.1 hp] using ih

theorem forall_mem_of_forall₂ (h : List.Forall₂ R as bs) {q : β → Prop}
    (hq : ∀ a b, R a b → q b) : ∀ b ∈ bs, q b := by
  induction h with
  | nil => exact fun _ hb => absurd hb List.not_mem_nil
  | cons hab _ ih => exact List.forall_mem_cons.2 ⟨hq _ _ hab, ih⟩

theorem map_eq_of_forall₂ (h : List.Forall₂ R as bs) {f : α → γ} {g : β → γ}
    (hfg : ∀ a ∈ as, ∀ b, R a b → g b = f a) : bs.map g = as.map f := by
  induction h with
  | nil => rfl
  | @cons a b as bs hab _ ih =>
    rw [List.map_cons, List.map_cons, hfg a List.mem_cons_self b hab,
      ih fun a ha => hfg a (List.mem_cons_of_mem _ ha)]

theorem filterMap_eq_of_forall₂ (h : List.Forall₂ R as bs) {f : α → Option γ} {g : β → Option γ}
    (hfg : ∀ a b, R a b → g b = f a) : bs.filterMap g = as.filterMap f := by
  induction h with
  | nil => rfl
  | cons hab _ ih => rw [List.filterMap_cons, List.filterMap_cons, hfg _ _ hab, ih]

theorem flatMap_eq_of_forall₂ (h : List.Forall₂ R as bs) {f : α → List γ} {g : β → List γ}
    (hfg : ∀ a ∈ as, ∀ b, R a b → g b = f a) : bs.flatMap g = as.flatMap f := by
  rw [List.flatMap_def, List.flatMap_def, map_eq_of_forall₂ h hfg]

end Rows

namespace Document.Renames

variable {document renamed : Document}

theorem fieldsWith (h : Renames ρ document renamed) {p q : Occurrence → Prop} [DecidablePred p]
    [DecidablePred q] (hpq : ∀ o ∈ document.occurrences, ∀ o',
      Occurrence.Renames ρ (RootTypes.ofDocument document) (RootTypes.ofDocument renamed) o o' →
        (q o' ↔ p o)) :
    renamed.fieldsWith q = (document.fieldsWith p).map ρ.coordinate := by
  rw [Document.fieldsWith, Document.fieldsWith, List.map_map]
  exact map_eq_of_forall₂ (forall₂_filter h.occurrences hpq) fun o _ o' hr => hr.coordinate

theorem fieldConfig (h : Renames ρ document renamed) (hapart : ρ.KeepsApart document.namedFields)
    {field : Coordinate} (hfield : field ∈ document.occurrences.map (·.coordinate)) :
    renamed.fieldConfig [] (ρ.coordinate field) = ρ.config (document.fieldConfig [] field) := by
  have hof : List.Forall₂ _ (document.occurrencesOf field)
      (renamed.occurrencesOf (ρ.coordinate field)) :=
    forall₂_filter h.occurrences fun o ho o' hr => by
      rw [hr.coordinate]
      refine ⟨fun e => ?_, congrArg ρ.coordinate⟩
      exact hapart.coordinate _ (coordinate_mem_namedFields ho) _
        (List.mem_append_left _ hfield) e
  have harguments := flatMap_eq_of_forall₂ hof fun o _ o' hr => hr.argumentNames
  have hrequired : (renamed.occurrencesOf (ρ.coordinate field)).flatMap (·.required) =
      ((document.occurrencesOf field).flatMap (·.required)).map (ρ.fieldName field.typeName) := by
    rw [List.map_flatMap]
    refine flatMap_eq_of_forall₂ hof fun o ho o' hr => ?_
    obtain ⟨ho, hcoordinate⟩ := List.mem_filter.1 ho
    rw [hr.required (hr.isKey hapart ho), ← of_decide_eq_true hcoordinate]
    rfl
  -- Required fields are key fields of the type, and as such the document speaks of them.
  have hdistinct : ∀ a ∈ (document.occurrencesOf field).flatMap (·.required),
      ∀ b ∈ (document.occurrencesOf field).flatMap (·.required),
      ρ.fieldName field.typeName a = ρ.fieldName field.typeName b → a = b := by
    have hnamed : ∀ a ∈ (document.occurrencesOf field).flatMap (·.required),
        ⟨field.typeName, a⟩ ∈ document.namedFields := by
      intro a ha
      obtain ⟨o, ho, ha⟩ := List.mem_flatMap.1 ha
      obtain ⟨ho, hcoordinate⟩ := List.mem_filter.1 ho
      have htype : o.container.name = field.typeName :=
        congrArg Coordinate.typeName (of_decide_eq_true hcoordinate)
      rw [Occurrence.required] at ha
      split_ifs at ha
      · exact htype ▸ key_mem_namedFields ho ha
      · exact absurd ha List.not_mem_nil
    exact fun a ha b hb => hapart.fieldName _ (hnamed a ha) _ (hnamed b hb) rfl
  rw [Document.fieldConfig, Document.fieldConfig]
  simp only [harguments, hrequired, eraseDups_map _ hdistinct]
  rfl

end Document.Renames

/-- **Classification commutes with renaming.** -/
theorem classify_renamed {document renamed : Document} (h : document.Renames ρ renamed)
    (hapart : ρ.KeepsApart document.namedFields) {c : Classification}
    (hc : classify document none [] = .ok c) :
    classify renamed none [] = .ok {
      rootNodes := c.rootNodes.map ρ.node
      childNodes := c.childNodes.map ρ.node
      fields := c.fields.map ρ.config
      types := [] } := by
  obtain ⟨hkeys, rfl⟩ := classify_eq_ok.1 hc
  refine classify_eq_ok.2 ⟨h.keysRead hkeys, ?_⟩
  have hnamed : ∀ (p : Occurrence → Prop) [DecidablePred p], ∀ x ∈ document.fieldsWith p,
      x ∈ document.occurrences.map (·.coordinate) :=
    fun p _ x hx => by
      obtain ⟨o, ho, rfl⟩ := List.mem_map.1 hx
      exact List.mem_map_of_mem (List.mem_filter.1 ho).1
  have hsub : ∀ (p : Occurrence → Prop) [DecidablePred p], ρ.KeepsApart (document.fieldsWith p) :=
    fun p _ => hapart.mono fun x hx => List.mem_append_left _ (hnamed p x hx)
  have hroots := h.fieldsWith fun o _ o' hr => hr.isRootNode
  have hchildren := h.fieldsWith fun o ho o' hr => hr.isChildNode (hr.isKey hapart ho)
  have hconfigured := h.fieldsWith (p := Occurrence.IsConfigured) (q := Occurrence.IsConfigured)
    fun o ho o' hr => by
      rw [Occurrence.IsConfigured, Occurrence.IsConfigured, hr.argumentNames,
        hr.required (hr.isKey hapart ho), Ne, Ne, Ne, List.map_eq_nil_iff]
  have hfields : (renamed.fieldsWith (·.IsConfigured)).eraseDups.map (renamed.fieldConfig []) =
      ((document.fieldsWith (·.IsConfigured)).eraseDups.map (document.fieldConfig [])).map
        ρ.config := by
    rw [hconfigured, eraseDups_map _ (hsub _).coordinate, List.map_map, List.map_map]
    exact List.map_congr_left fun x hx =>
      h.fieldConfig hapart (hnamed _ x (List.mem_eraseDups.1 hx))
  simp only [Option.getD_none, Document.classification, hroots, hchildren, hfields,
    Renaming.group_map (hsub _)]

end Supergraph
