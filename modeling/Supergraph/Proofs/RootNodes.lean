import Supergraph.Proofs.Classify
import Supergraph.Proofs.Results

/-!
# The fields of root types

A request starts at the fields of the root types, and no object leads to them. So these fields are
root nodes, and none of them should be a child node.

**Theorem (`rootFields_classified`).** Among the fields of root types the root nodes are exactly the
declared ones. A field of a root type is a child node if and only if some declaration of it is
external and part of the key of its container. So root fields are root nodes and nothing else
exactly if no root type has such a declaration.

The rule by which a type's own fields become child nodes leaves root types out. The rule for
external keys does not ask for the type, and it alone is left for them.
-/

namespace Supergraph

namespace Occurrence

/-- Whether the field stands for one of another service and is part of the key. -/
def IsForeignKey (o : Occurrence) : Prop := o.field.isExternal ∧ o.IsKey

instance : DecidablePred IsForeignKey := fun _ => inferInstanceAs (Decidable (_ ∧ _))

variable {roots : RootTypes} {o : Occurrence} (hroot : o.container.name ∈ roots.names)

include hroot

theorem isRootNode_of_root : o.IsRootNode roots := .inl hroot

/-- Of the two rules for child nodes one leaves root types out. -/
theorem isChildNode_iff_of_root : o.IsChildNode roots ↔ o.IsForeignKey :=
  or_iff_right fun h => h.1 hroot

end Occurrence

namespace Document

/-- The occurrences in the containers of root types. -/
def rootOccurrences (document : Document) : List Occurrence :=
  document.occurrences.filter (·.container.name ∈ (RootTypes.ofDocument document).names)

theorem mem_rootOccurrences {document : Document} {o : Occurrence} :
    o ∈ document.rootOccurrences ↔
      o ∈ document.occurrences ∧ o.container.name ∈ (RootTypes.ofDocument document).names := by
  simp [rootOccurrences]

/-- A field of a root type satisfies what an occurrence in a container of a root type does. -/
theorem mem_fieldsWith_of_root {document : Document} {p : Occurrence → Prop} [DecidablePred p]
    {field : Coordinate} (hroot : field.typeName ∈ (RootTypes.ofDocument document).names) :
    field ∈ document.fieldsWith p ↔ ∃ o ∈ document.rootOccurrences, o.coordinate = field ∧ p o := by
  simp only [fieldsWith, List.mem_map, List.mem_filter, decide_eq_true_eq, mem_rootOccurrences]
  constructor
  · rintro ⟨o, ⟨ho, hp⟩, rfl⟩
    exact ⟨o, ⟨ho, hroot⟩, rfl, hp⟩
  · rintro ⟨o, ⟨ho, -⟩, rfl, hp⟩
    exact ⟨o, ⟨ho, hp⟩, rfl⟩

end Document

section Classified

variable {schema : Document} {service : Option Document} {retypings : List ArgumentRetyping}
  {c : Classification} (hc : classify schema service retypings = .ok c) {field : Coordinate}
  (hroot : field.typeName ∈ (RootTypes.ofDocument (service.getD schema)).names)

include hc hroot

theorem mem_rootNodes_of_root : field ∈ c.rootNodes.coordinates ↔
    ∃ o ∈ (service.getD schema).rootOccurrences, o.coordinate = field := by
  obtain ⟨-, rfl⟩ := classify_eq_ok.1 hc
  refine NodeList.mem_coordinates_group.trans ((Document.mem_fieldsWith_of_root hroot).trans ?_)
  refine exists_congr fun o => and_congr_right fun ho => and_iff_left ?_
  exact Occurrence.isRootNode_of_root (Document.mem_rootOccurrences.1 ho).2

theorem mem_childNodes_of_root : field ∈ c.childNodes.coordinates ↔
    ∃ o ∈ (service.getD schema).rootOccurrences, o.coordinate = field ∧ o.IsForeignKey := by
  obtain ⟨-, rfl⟩ := classify_eq_ok.1 hc
  refine NodeList.mem_coordinates_group.trans ((Document.mem_fieldsWith_of_root hroot).trans ?_)
  refine exists_congr fun o => and_congr_right fun ho => and_congr_right fun _ => ?_
  exact Occurrence.isChildNode_iff_of_root (Document.mem_rootOccurrences.1 ho).2

end Classified

/-- **Root fields are root nodes**, and they are nothing else exactly if none of them stands for a
field of another service in a key. -/
theorem rootFields_classified (schema : Document) (service : Option Document)
    (retypings : List ArgumentRetyping) (c : Classification)
    (hc : classify schema service retypings = .ok c) :
    let document := service.getD schema
    let roots := RootTypes.ofDocument document
    (∀ field : Coordinate, field.typeName ∈ roots.names →
        (field ∈ c.rootNodes.coordinates ↔
          ∃ o ∈ document.rootOccurrences, o.coordinate = field) ∧
        (field ∈ c.childNodes.coordinates ↔
          ∃ o ∈ document.rootOccurrences, o.coordinate = field ∧ o.IsForeignKey)) ∧
      ((∀ field ∈ c.childNodes.coordinates, field.typeName ∉ roots.names) ↔
        ∀ o ∈ document.rootOccurrences, ¬ o.IsForeignKey) := by
  intro document roots
  refine ⟨fun field hroot => ⟨mem_rootNodes_of_root hc hroot, mem_childNodes_of_root hc hroot⟩,
    fun h o ho hforeign => ?_, fun h field hfield hroot => ?_⟩
  · have hroot := (Document.mem_rootOccurrences.1 ho).2
    exact h o.coordinate ((mem_childNodes_of_root hc hroot).2 ⟨o, ho, rfl, hforeign⟩) hroot
  · obtain ⟨o, ho, -, hforeign⟩ := (mem_childNodes_of_root hc hroot).1 hfield
    exact h o ho hforeign

/-- The root type of a service that extends a product, whose key it gets from elsewhere. -/
def reviews : Document := ⟨[
  .type none ⟨"Query", [], .container .object [] [
    ⟨none, "review", [⟨none, "id", .named "ID", none, []⟩], .named "Int", []⟩]⟩,
  .extension ⟨"Query", [], .container .object [] [⟨none, "latest", [], .named "Product", []⟩]⟩,
  .extension ⟨"Product", [⟨"key", [("fields", .string "upc")]⟩], .container .object [] [
    ⟨none, "upc", [], .named "ID", [⟨"external", []⟩]⟩,
    ⟨none, "stars", [], .named "Int", []⟩]⟩]⟩

/-- The external key of the product is a child node; no root field is. -/
theorem rootFields_classified_reviews :
    ∃ c, classify reviews none [] = .ok c ∧
      c.rootNodes = [⟨"Query", ["review", "latest"]⟩, ⟨"Product", ["stars"]⟩] ∧
      c.childNodes = [⟨"Product", ["upc"]⟩] ∧
      ∀ field ∈ c.childNodes.coordinates,
        field.typeName ∉ (RootTypes.ofDocument reviews).names := by
  have hc : classify reviews none [] = .ok (reviews.classification []) :=
    classify_eq_ok.2 ⟨by decide +kernel, rfl⟩
  refine ⟨_, hc, by decide +kernel, by decide +kernel, ?_⟩
  exact (rootFields_classified reviews none [] _ hc).2.2 (by decide +kernel)

/-- A root type with a key that another service provides: the field is a root node and a child node.
-/
theorem external_key_of_query_is_child_node :
    ∃ document c,
      parseSchema "type Query @key(fields: \"id\") \x7b id: ID @external me: Int \x7d" =
        .ok document ∧
      classify document none [] = .ok c ∧
      "Query" ∈ (RootTypes.ofDocument document).names ∧
      c.rootNodes = [⟨"Query", ["id", "me"]⟩] ∧ c.childNodes = [⟨"Query", ["id"]⟩] := by
  obtain ⟨document, hdocument, c, hc, h⟩ :
      ∃ document ∈ (parseSchema
        "type Query @key(fields: \"id\") \x7b id: ID @external me: Int \x7d").toOption,
      ∃ c ∈ (classify document none []).toOption,
        "Query" ∈ (RootTypes.ofDocument document).names ∧
        c.rootNodes = [⟨"Query", ["id", "me"]⟩] ∧ c.childNodes = [⟨"Query", ["id"]⟩] := by
    decide +kernel
  exact ⟨document, c, mem_toOption.1 hdocument, mem_toOption.1 hc, h⟩

end Supergraph
