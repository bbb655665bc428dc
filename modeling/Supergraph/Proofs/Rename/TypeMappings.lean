import Supergraph.Backend.Database
import Supergraph.Proofs.Consistency.Renames

/-!
# Renames and type mappings

Besides its nodes and field configurations, a composite names types in two more places: a type
mapping gives the backend's name for a type, and some types are listed because variables of them are
rendered as JSON. Namespaces change these names together with the schema. Renames do not.

**Theorem (`followsRenames_iff`).** A call that renames types leaves the mapped names as they are.
So they follow the renames exactly if no mapped type is renamed, and they still name declared types
exactly if each of them has been given to some type. What a call leaves behind no later call makes
up for.

The last section shows a database whose mappings name no type of its schema any more
(`renamed_user_loses_mappings`).
-/

namespace Supergraph

variable {α : Type}

/-! ## Mapped names -/

namespace Composite

/-- The types that have a mapping, or variables that are rendered as JSON. -/
def mappedNames (composite : Composite α) : List String :=
  composite.types.map (·.typeName) ++ composite.jsonVariableTypes

/-- Whether the schema declares all mapped types. -/
def MapsDeclared (composite : Composite α) : Prop :=
  ∃ document ∈ (parseSchema composite.schema).toOption,
    ∀ name ∈ composite.mappedNames, name ∈ document.declaredNames

instance : DecidablePred (MapsDeclared (α := α)) :=
  fun _ => inferInstanceAs (Decidable (∃ _ ∈ _, _))

/-- Whether `renamed` maps what `composite` does, under the new names, which its schema declares. -/
structure FollowsRenames (renames : List TypeRename) (composite renamed : Composite α) : Prop where
  types : renamed.types = composite.types.map fun mapping =>
    { mapping with typeName := TypeRename.apply renames mapping.typeName }
  jsonVariableTypes : renamed.jsonVariableTypes =
    composite.jsonVariableTypes.map (TypeRename.apply renames)
  declared : renamed.MapsDeclared

end Composite

/-! ## Calls -/

namespace RenameCall

theorem mappings_apply (call : RenameCall) {composite renamed : Composite α}
    (hcall : call.apply composite = .ok renamed) :
    renamed.types = composite.types ∧ renamed.jsonVariableTypes = composite.jsonVariableTypes := by
  cases call <;>
  · obtain ⟨schema, -, hrenamed⟩ := bind_eq_ok.1 hcall
    obtain rfl := Except.ok.inj hrenamed
    exact ⟨rfl, rfl⟩

/-- A call that fails changes nothing at all. -/
theorem mappings_perform (composite : Composite α) (call : RenameCall) :
    (perform composite call).types = composite.types ∧
      (perform composite call).jsonVariableTypes = composite.jsonVariableTypes := by
  unfold perform
  cases hcall : call.apply composite with
  | error error => exact ⟨rfl, rfl⟩
  | ok renamed => exact mappings_apply call hcall

/-- No sequence of calls changes the mappings. -/
theorem mappings_performAll (composite : Composite α) (calls : List RenameCall) :
    (performAll composite calls).types = composite.types ∧
      (performAll composite calls).jsonVariableTypes = composite.jsonVariableTypes := by
  induction calls generalizing composite with
  | nil => exact ⟨rfl, rfl⟩
  | cons call rest ih =>
    obtain ⟨htypes, hnames⟩ := ih (perform composite call)
    obtain ⟨htype, hname⟩ := mappings_perform composite call
    exact ⟨htypes.trans htype, hnames.trans hname⟩

end RenameCall

/-! ## Type renames -/

section Renames

variable {composite renamed : Composite α} {renames : List TypeRename}

/-- The schema of the renamed composite declares the renamed types. -/
theorem declaredNames_of_renameTypes {document : Document}
    (hdocument : parseSchema composite.schema = .ok document)
    (happly : composite.renameTypes renames = .ok renamed)
    (hreads : ∀ printed ∈ (RenameCall.types renames).printed? composite.schema,
      printed.ReadsBackAs Document.declaredNames) :
    ∃ other, parseSchema renamed.schema = .ok other ∧
      other.declaredNames = document.declaredNames.map (TypeRename.apply renames) := by
  obtain ⟨schema, hschema, hrenamed⟩ := bind_eq_ok.1 happly
  obtain rfl := Except.ok.inj hrenamed
  obtain ⟨other, hother, hnames⟩ := TypeRename.view_of_applyToSchema hdocument hschema hreads
  exact ⟨other, hother, hnames.trans document.declaredNames_mapTypeNames⟩

theorem map_eq_self_iff {β : Type} {f : β → β} {as : List β} :
    as.map f = as ↔ ∀ a ∈ as, f a = a := by
  simpa using List.map_inj_left (f := f) (g := id) (l := as)

/-- **Mappings follow renames** exactly if no mapped type is renamed, and no calls after it change
them. -/
theorem followsRenames_iff (composite renamed : Composite α) (renames : List TypeRename)
    (document : Document) (hdocument : parseSchema composite.schema = .ok document)
    (hmaps : ∀ name ∈ composite.mappedNames, name ∈ document.declaredNames)
    (happly : composite.renameTypes renames = .ok renamed)
    (hreads : ∀ printed ∈ (RenameCall.types renames).printed? composite.schema,
      printed.ReadsBackAs Document.declaredNames) :
    (composite.FollowsRenames renames renamed ↔
        ∀ name ∈ composite.mappedNames, TypeRename.apply renames name = name) ∧
      (renamed.MapsDeclared ↔ ∀ name ∈ composite.mappedNames,
        ∃ declared ∈ document.declaredNames, TypeRename.apply renames declared = name) ∧
      ∀ calls, (RenameCall.performAll renamed calls).types = composite.types ∧
        (RenameCall.performAll renamed calls).jsonVariableTypes =
          composite.jsonVariableTypes := by
  obtain ⟨other, hother, hnames⟩ := declaredNames_of_renameTypes hdocument happly hreads
  obtain ⟨htypes, hjson⟩ := RenameCall.mappings_apply (.types renames) happly
  -- A call leaves the mappings as they are, so only the declared names can move.
  have hdeclared : renamed.MapsDeclared ↔ ∀ name ∈ composite.mappedNames,
      ∃ declared ∈ document.declaredNames, TypeRename.apply renames declared = name := by
    have hmapped : renamed.mappedNames = composite.mappedNames := by
      rw [Composite.mappedNames, Composite.mappedNames, htypes, hjson]
    simp only [Composite.MapsDeclared, hother, Except.toOption, Option.mem_some_iff,
      exists_eq_left', hmapped, hnames, List.mem_map]
  have htypesKept : composite.types = composite.types.map (fun mapping =>
        { mapping with typeName := TypeRename.apply renames mapping.typeName }) ↔
      ∀ mapping ∈ composite.types,
        TypeRename.apply renames mapping.typeName = mapping.typeName := by
    rw [eq_comm, map_eq_self_iff]
    exact forall₂_congr fun mapping _ => by cases mapping; simp
  have hkept : (∀ name ∈ composite.mappedNames, TypeRename.apply renames name = name) ↔
      (∀ mapping ∈ composite.types,
        TypeRename.apply renames mapping.typeName = mapping.typeName) ∧
      ∀ name ∈ composite.jsonVariableTypes, TypeRename.apply renames name = name := by
    rw [Composite.mappedNames, List.forall_mem_append, List.forall_mem_map]
  refine ⟨⟨fun hfollows => hkept.2 ⟨?_, ?_⟩, fun h => ?_⟩, hdeclared, fun calls => ?_⟩
  · exact htypesKept.1 (htypes ▸ hfollows.types)
  · exact map_eq_self_iff.1 (hjson.symm.trans hfollows.jsonVariableTypes).symm
  · obtain ⟨hmappings, hvariables⟩ := hkept.1 h
    exact {
      types := htypes.trans (htypesKept.2 hmappings)
      jsonVariableTypes := hjson.trans (map_eq_self_iff.2 hvariables).symm
      declared := hdeclared.2 fun name hname => ⟨name, hmaps name hname, h name hname⟩ }
  · obtain ⟨hlater, hlaterJson⟩ := RenameCall.mappings_performAll renamed calls
    exact ⟨hlater.trans htypes, hlaterJson.trans hjson⟩

end Renames

/-! ## A database of users -/

/-- A database in the namespace `db`. -/
def userDatabase : DatabaseBackend :=
  { DatabaseBackend.ofUrl .postgresql (.literal "postgres://db") with apiNamespace := some "db" }

/-- What the engine reports: users are found by a filter, whose variables are JSON. -/
def userReport : DatabaseReport :=
  { DatabaseReport.blank with
    success := true
    graphqlSchema :=
      "type Query\x7buser(by:Filter):User\x7d type User\x7bid:ID\x7d input Filter\x7bid:ID\x7d"
    jsonVariableTypes := ["Filter"] }

/-- Renaming the root type, which has no mapping, keeps the mappings in step. -/
theorem followsRenames_userDatabase :
    ∃ composite renamed, userDatabase.composite userReport = .ok composite ∧
      composite.types = [⟨"db_User", "User"⟩, ⟨"db_Filter", "Filter"⟩] ∧
      composite.renameTypes [⟨"Query", "Root"⟩] = .ok renamed ∧
      composite.FollowsRenames [⟨"Query", "Root"⟩] renamed := by
  obtain ⟨composite, hcomposite, htypes, document, hdocument, hmaps, renamed, hrenamed, hreads,
      hkept⟩ :
      ∃ composite ∈ (userDatabase.composite userReport).toOption,
      composite.types = [⟨"db_User", "User"⟩, ⟨"db_Filter", "Filter"⟩] ∧
      ∃ document ∈ (parseSchema composite.schema).toOption,
      (∀ name ∈ composite.mappedNames, name ∈ document.declaredNames) ∧
      ∃ renamed ∈ (composite.renameTypes [⟨"Query", "Root"⟩]).toOption,
      (∀ printed ∈ (RenameCall.types [⟨"Query", "Root"⟩]).printed? composite.schema,
        printed.ReadsBackAs Document.declaredNames) ∧
      ∀ name ∈ composite.mappedNames, TypeRename.apply [⟨"Query", "Root"⟩] name = name := by
    decide +kernel
  obtain ⟨hfollows, -⟩ := followsRenames_iff composite renamed [⟨"Query", "Root"⟩] document
    (mem_toOption.1 hdocument) hmaps (mem_toOption.1 hrenamed) hreads
  exact ⟨composite, renamed, mem_toOption.1 hcomposite, htypes, mem_toOption.1 hrenamed,
    hfollows.2 hkept⟩

/-- Renaming the users and their filter leaves mappings of types that nothing declares. -/
theorem renamed_user_loses_mappings :
    let renames : List TypeRename := [⟨"db_User", "Person"⟩, ⟨"db_Filter", "PersonFilter"⟩]
    ∃ composite renamed, userDatabase.composite userReport = .ok composite ∧
      composite.MapsDeclared ∧ composite.renameTypes renames = .ok renamed ∧
      renamed.types = [⟨"db_User", "User"⟩, ⟨"db_Filter", "Filter"⟩] ∧
      ¬ composite.FollowsRenames renames renamed ∧ ¬ renamed.MapsDeclared := by
  intro renames
  obtain ⟨composite, hcomposite, hmaps, renamed, hrenamed, htypes, hlost⟩ :
      ∃ composite ∈ (userDatabase.composite userReport).toOption, composite.MapsDeclared ∧
      ∃ renamed ∈ (composite.renameTypes renames).toOption,
        renamed.types = [⟨"db_User", "User"⟩, ⟨"db_Filter", "Filter"⟩] ∧
        ¬ renamed.MapsDeclared := by
    decide +kernel
  exact ⟨composite, renamed, mem_toOption.1 hcomposite, hmaps, mem_toOption.1 hrenamed, htypes,
    fun hfollows => hlost hfollows.declared, hlost⟩

end Supergraph
