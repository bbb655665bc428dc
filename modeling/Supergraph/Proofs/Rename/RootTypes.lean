import Supergraph.Proofs.Rename.Classification
import Supergraph.Proofs.RootTypes

/-!
# Entry points of renamed schemas

Renaming types should keep the entry points of a schema: the root types of the renamed document
should be the renamed root types.

**Theorem (`typeOf_renamed_iff`).** If the renames keep the types of a document apart, then the root
type of an operation is renamed with all other types if and only if a `schema` definition names it,
or the renames leave its conventional name alone: the type of that name keeps it, and no other type
gets it. If this holds for all operations, a type is a root exactly if it is a renamed root.

A `schema` definition is part of the document, so the renames reach it. A conventional name stands
nowhere: a root type found by it is lost once it is renamed (`renamed_query_is_no_root`), and
another type that gets the name becomes a root.
-/

namespace Supergraph.TypeRename

open RootTypes (operations Follows)

/-- **Entry points follow type renames** exactly where a `schema` definition names them or the
renames leave the conventional name alone. Without renames a schema text stays as it is; otherwise
it is the renamed document that is printed. -/
theorem typeOf_renamed_iff (renames : List TypeRename) (document : Document)
    (hinj : Set.InjOn (apply renames) {name | name ∈ document.typeNames}) :
    let renamed := document.mapTypeNames (apply renames)
    (∀ operation, (operations renamed).typeOf operation =
          ((operations document).typeOf operation).map (apply renames) ↔
        Follows (apply renames) document operation) ∧
      ((∀ operation, Follows (apply renames) document operation) →
        ∀ name, name ∈ (RootTypes.ofDocument renamed).names ↔
          ∃ root ∈ (RootTypes.ofDocument document).names, apply renames root = name) ∧
      ∀ schema, parseSchema schema = .ok document →
        applyToSchema renames schema = .ok (if renames.isEmpty then schema else renamed.print) := by
  intro renamed
  have hiff := RootTypes.typeOf_mapTypeNames_iff hinj
  refine ⟨hiff, fun hfollows name => ?_, fun schema hread => applyToSchema_of_parse renames hread⟩
  simp only [RootTypes.mem_names_iff_typeOf]
  constructor
  · rintro ⟨operation, h⟩
    rw [(hiff operation).2 (hfollows operation), Option.map_eq_some_iff] at h
    obtain ⟨root, hroot, e⟩ := h
    exact ⟨root, ⟨operation, hroot⟩, e⟩
  · rintro ⟨root, ⟨operation, hroot⟩, rfl⟩
    refine ⟨operation, ?_⟩
    rw [(hiff operation).2 (hfollows operation), hroot, Option.map_some]

/-- Swapping the names of the two types of the library swaps what is a root. -/
theorem typeOf_renamed_library :
    let renames : List TypeRename := [⟨"Book", "Query"⟩, ⟨"Query", "Book"⟩]
    let renamed := library.mapTypeNames (apply renames)
    (operations renamed).query = some "Query" ∧
      "Book" ∉ (RootTypes.ofDocument renamed).names := by
  intro renames renamed
  have hinj : ∀ x ∈ library.typeNames, ∀ y ∈ library.typeNames,
      apply renames x = apply renames y → x = y := by decide +kernel
  obtain ⟨hiff, hroots, -⟩ := typeOf_renamed_iff renames library fun x hx y hy => hinj x hx y hy
  have hfollows : ∃ directives roots, Definition.schema directives roots ∈ library.definitions :=
    ⟨_, _, List.mem_cons_self⟩
  refine ⟨(hiff .query).2 (.inl hfollows), fun h => ?_⟩
  obtain ⟨root, hroot, hbook⟩ := (hroots (fun _ => .inl hfollows) "Book").1 h
  have hnames : ∀ name ∈ (RootTypes.ofDocument library).names, name = "Book" := by decide
  rw [hnames root hroot] at hbook
  exact absurd hbook (by decide)

/-- A query type that is found by its name is none any more under another name. -/
theorem renamed_query_is_no_root :
    ∃ document, parseSchema "type Query\x7bme:Int\x7d" = .ok document ∧
      applyToSchema [⟨"Query", "Root"⟩] "type Query\x7bme:Int\x7d" =
        .ok (document.mapTypeNames (apply [⟨"Query", "Root"⟩])).print ∧
      (∀ x ∈ document.typeNames, ∀ y ∈ document.typeNames,
        apply [⟨"Query", "Root"⟩] x = apply [⟨"Query", "Root"⟩] y → x = y) ∧
      (operations document).query = some "Query" ∧
      (operations (document.mapTypeNames (apply [⟨"Query", "Root"⟩]))).query = none ∧
      "Root" ∉
        (RootTypes.ofDocument (document.mapTypeNames (apply [⟨"Query", "Root"⟩]))).names := by
  obtain ⟨document, hdocument, h⟩ :
      ∃ document ∈ (parseSchema "type Query\x7bme:Int\x7d").toOption,
        (∀ x ∈ document.typeNames, ∀ y ∈ document.typeNames,
          apply [⟨"Query", "Root"⟩] x = apply [⟨"Query", "Root"⟩] y → x = y) ∧
        (operations document).query = some "Query" ∧
        (operations (document.mapTypeNames (apply [⟨"Query", "Root"⟩]))).query = none ∧
        "Root" ∉
          (RootTypes.ofDocument (document.mapTypeNames (apply [⟨"Query", "Root"⟩]))).names := by
    decide +kernel
  have hread := mem_toOption.1 hdocument
  exact ⟨document, hread, applyToSchema_of_parse _ hread, h⟩

end Supergraph.TypeRename
