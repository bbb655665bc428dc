import Supergraph.Classification

/-!
# What a document says about a field

A field is declared by *occurrences*: it stands in a container, and the same field of the same type
may stand in several containers of a document. What the classification makes of an occurrence
depends on the occurrence alone, and on the root types of the document. This file says what, rule by
rule, without going through a document.
-/

namespace Supergraph

/-! ## Keys -/

/-- The text of a `key` directive. -/
def Directive.keyText? (directive : Directive) : Option String :=
  if directive.name = "key" then directive.stringArgument? "fields" else none

namespace FieldSet

/-- The names that a text selects at the top level, if it can be read. -/
def namesIn (text : String) : List String :=
  match parse text with
  | .ok fields => fields.names
  | .error _ => []

/-- Why a text cannot be read. -/
def errorIn? (text : String) : Option Error :=
  match parse text with
  | .ok _ => none
  | .error error => some error

end FieldSet

namespace Container

/-- The texts of the keys of a container. -/
def keyTexts (container : Container) : List String :=
  container.directives.filterMap Directive.keyText?

/-- The fields of the keys of a container. -/
def keyNames (container : Container) : List String :=
  container.keyTexts.flatMap FieldSet.namesIn

theorem keyNames_of_not_isEntity {container : Container} (h : ¬ container.isEntity) :
    container.keyNames = [] := by
  have htexts : container.keyTexts = [] := by
    rw [Container.keyTexts, List.filterMap_eq_nil_iff]
    intro directive hd
    have hname : directive.name ≠ "key" := fun e =>
      h (List.any_eq_true.2 ⟨directive, hd, decide_eq_true e⟩)
    rw [Directive.keyText?, if_neg hname]
  rw [Container.keyNames, htexts, List.flatMap_nil]

end Container

/-! ## Occurrences -/

/-- A field in the container that declares it. -/
structure Occurrence where
  container : Container
  field : Field

namespace Occurrence

/-- The field that occurs. -/
def coordinate (o : Occurrence) : Coordinate := ⟨o.container.name, o.field.name⟩

/-- Whether the field is part of the key of its container. -/
def IsKey (o : Occurrence) : Prop := o.field.name ∈ o.container.keyNames

/-- Root nodes are the fields of root types, and the fields of entities that are no other service's.
-/
def IsRootNode (roots : RootTypes) (o : Occurrence) : Prop :=
  o.container.name ∈ roots.names ∨ (o.container.isEntity ∧ ¬ o.field.isExternal)

/-- Child nodes are the fields of other types that are no other service's, unless an entity is
extended with them, and those of another service that are part of the key. -/
def IsChildNode (roots : RootTypes) (o : Occurrence) : Prop :=
  (o.container.name ∉ roots.names ∧ ¬ o.field.isExternal ∧
    ¬ (o.container.extendsType ∧ o.container.isEntity)) ∨ (o.field.isExternal ∧ o.IsKey)

/-- The key is needed by the fields of entities that are no other service's: by those that an entity
is extended with, and by those that are not part of the key. -/
def RequiresKey (o : Occurrence) : Prop :=
  o.container.isEntity ∧ ¬ o.field.isExternal ∧ (o.container.extendsType ∨ ¬ o.IsKey)

instance : DecidablePred IsKey := fun _ => inferInstanceAs (Decidable (_ ∈ _))

instance (roots : RootTypes) : DecidablePred (IsRootNode roots) :=
  fun _ => inferInstanceAs (Decidable (_ ∨ _))

instance (roots : RootTypes) : DecidablePred (IsChildNode roots) :=
  fun _ => inferInstanceAs (Decidable (_ ∨ _))

instance : DecidablePred RequiresKey := fun _ => inferInstanceAs (Decidable (_ ∧ _))

/-- The names of the arguments. -/
def argumentNames (o : Occurrence) : List String := o.field.arguments.map (·.name)

/-- The fields that have to be fetched before this one. -/
def required (o : Occurrence) : List String := if o.RequiresKey then o.container.keyNames else []

/-- Whether there is anything to configure. -/
def IsConfigured (o : Occurrence) : Prop := o.argumentNames ≠ [] ∨ o.required ≠ []

instance : DecidablePred IsConfigured := fun _ => inferInstanceAs (Decidable (_ ∨ _))

end Occurrence

/-! ## Documents -/

namespace Document

/-- The occurrences of fields, in document order. -/
def occurrences (document : Document) : List Occurrence :=
  document.containers.flatMap fun container => container.fields.map (⟨container, ·⟩)

/-- The texts of the keys of all containers, in document order. -/
def keyTexts (document : Document) : List String := document.containers.flatMap (·.keyTexts)

/-- The occurrences of one field. -/
def occurrencesOf (document : Document) (field : Coordinate) : List Occurrence :=
  document.occurrences.filter (·.coordinate = field)

/-- The fields with an occurrence that satisfies `p`, in document order. -/
def fieldsWith (document : Document) (p : Occurrence → Prop) [DecidablePred p] : List Coordinate :=
  (document.occurrences.filter p).map (·.coordinate)

/-- The type that an argument is sent with: that of the first retyping for it, if there is one. -/
def sentType (retypings : List ArgumentRetyping) (field : Coordinate) (argument : String) :
    String :=
  let isFor := fun r : ArgumentRetyping =>
    r.typeName = field.typeName ∧ r.fieldName = field.fieldName ∧ r.argumentName = argument
  ((retypings.find? (isFor ·)).map (·.renameTypeTo)).getD ""

/-- The configuration of a field: every argument of its occurrences once, and every field that they
require once. -/
def fieldConfig (document : Document) (retypings : List ArgumentRetyping) (field : Coordinate) :
    FieldConfig :=
  let occurrences := document.occurrencesOf field
  { FieldConfig.blank field with
    arguments := (occurrences.flatMap (·.argumentNames)).eraseDups.map fun name =>
      ⟨name, .fieldArgument, [], .default, sentType retypings field name⟩
    requires := (occurrences.flatMap (·.required)).eraseDups }

theorem mem_occurrences {document : Document} {o : Occurrence} :
    o ∈ document.occurrences ↔
      o.container ∈ document.containers ∧ o.field ∈ o.container.fields := by
  obtain ⟨container, field⟩ := o
  simp only [occurrences, List.mem_flatMap, List.mem_map, Occurrence.mk.injEq]
  constructor
  · rintro ⟨c, hc, f, hf, rfl, rfl⟩
    exact ⟨hc, hf⟩
  · rintro ⟨hc, hf⟩
    exact ⟨container, hc, field, hf, rfl, rfl⟩

end Document

end Supergraph
