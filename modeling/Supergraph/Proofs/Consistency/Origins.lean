import Supergraph.Proofs.Consistency.Composites

/-!
# When composites are consistent

**Theorem (`composites_stay_consistent`).** A composite stays consistent under every sequence of
renames, whatever backend it is made from and in every namespace, unless the namespace captures a
field. If it captures one that is not external, and whose name does not look as if it had been
moved, the composite is not consistent to begin with (`captured_field_breaks_consistency`).

This says what the parts of a composite amount to once its texts are read, so it assumes that what
is printed on the way can be read again and declares the same fields.
-/

namespace Supergraph

/-- What a composite is made from. -/
inductive Origin : Type → Type where
  | graphql (backend : GraphQLBackend) (sdl : String) : Origin GraphQLPayload
  | federation (backend : Federation) (sdls : List String) : Origin GraphQLPayload
  | openApi (backend : OpenApiBackend) (converted : Composite RestPayload) : Origin RestPayload

namespace Origin

variable {α : Type}

/-- The composite. -/
def composite : Origin α → Except Error (Composite α)
  | graphql backend sdl => backend.composite sdl
  | federation backend sdls => backend.composite sdls
  | openApi backend converted => backend.namespaced converted

/-- The namespace. -/
def scope : Origin α → Namespace
  | graphql backend _ => backend.scope
  | federation backend _ => backend.scope
  | openApi backend _ => backend.scope

/-- The schema before it is moved into the namespace. -/
def document : Origin α → Except Error Document
  | graphql backend sdl => backend.document sdl
  | federation backend sdls => do Federation.composed (← backend.documents sdls)
  | openApi _ converted => parseSchema converted.schema

/-- Whether a converter, if there is one, has made a consistent composite. -/
def IsConsistent : Origin α → Prop
  | graphql _ _ => True
  | federation _ _ => True
  | openApi _ converted => converted.Consistent

/-- Whether what is printed on the way to the composed schema reads back. -/
def ComposesFaithfully : Origin α → Prop
  | graphql _ _ => True
  | federation backend sdls =>
    ∀ documents ∈ (backend.documents sdls).toOption, Federation.ReadBack documents
  | openApi _ _ => True

/-- Whether the document in the composed schema reads back. Without a namespace none is printed. -/
def MovesFaithfully (origin : Origin α) : Prop :=
  ¬ origin.scope.isEmpty → ∀ document ∈ origin.document.toOption,
    (origin.scope.applyToDocument document).ReadsBack

end Origin

/-- **Composites stay consistent** unless a field is captured. -/
theorem composites_stay_consistent {α : Type} (origin : Origin α) (c : Composite α)
    (hc : origin.composite = .ok c) (hconverted : origin.IsConsistent)
    (hcomposes : origin.ComposesFaithfully) (hmoves : origin.MovesFaithfully) :
    ∃ document, origin.document = .ok document ∧
      (origin.scope.Unambiguous document → c.StaysConsistent) ∧
      ∀ o ∈ document.occurrences, ¬ o.field.isExternal →
        origin.scope.IsCaptured (.ofDocument document) o.coordinate →
          ¬ origin.scope.IsQualified o.field.name → ¬ c.Consistent := by
  suffices h : ∃ document, origin.document = .ok document ∧ origin.scope.Decides document c by
    obtain ⟨document, hdocument, hdecides⟩ := h
    exact ⟨document, hdocument, hdecides.stays, hdecides.breaks⟩
  cases origin with
  | graphql backend sdl =>
    obtain ⟨document, hdocument, hdecides⟩ := GraphQLBackend.decides_composite hc
    exact ⟨document, hdocument, hdecides fun h => hmoves h document (mem_toOption.2 hdocument)⟩
  | federation backend sdls =>
    obtain ⟨documents, document, hdocuments, hdocument, hdecides⟩ :=
      Federation.decides_composite hc
    have hcomposed : Origin.document (.federation backend sdls) = .ok document :=
      bind_eq_ok.2 ⟨documents, hdocuments, hdocument⟩
    exact ⟨document, hcomposed, hdecides (hcomposes documents (mem_toOption.2 hdocuments)) fun h =>
      hmoves h document (mem_toOption.2 hcomposed)⟩
  | openApi backend converted =>
    obtain ⟨document, hdocument, hdecides⟩ := OpenApiBackend.decides_namespaced hconverted hc
    exact ⟨document, hdocument, hdecides fun h => hmoves h document (mem_toOption.2 hdocument)⟩

/-! ## Users -/

/-- A server of users in the namespace `m`. -/
def servedUsers : Origin GraphQLPayload :=
  .graphql
    { GraphQLBackend.ofUrl "http://server" with
      http := { HttpBackend.default with apiNamespace := some "m" }
      skippedRootFields := ["me"] }
    "type Query\x7bme:User\x7dtype User\x7bid:ID age:Int\x7d"

/-- Two servers that share the users, in the namespace `m`. -/
def sharedUsers : Origin GraphQLPayload :=
  .federation
    { Federation.ofSubgraphs [.ofUrl "http://accounts", .ofUrl "http://profiles"] with
      apiNamespace := some "m" }
    ["type Query\x7bme:User\x7dtype User\x7bid:ID\x7d", "extend type User\x7bage:Int\x7d"]

/-- What a converter makes of a service of users. -/
def convertedUsers : Composite RestPayload :=
  .make "type Query\x7bme:User\x7dtype User\x7bid:ID age:Int\x7d"
    [⟨none, .rest, [⟨"Query", ["me"]⟩], [⟨"User", ["id", "age"]⟩], .blank, [], 0⟩] [] [] []

/-- A service of users in the namespace `m`. -/
def restUsers : Origin RestPayload :=
  .openApi
    { OpenApiBackend.ofSource (.text "") with
      http := { HttpBackend.default with apiNamespace := some "m" } }
    convertedUsers

/-- Two types swap their names, and then two fields of one of them do. -/
def swaps : List RenameCall :=
  [.types [⟨"m_User", "Query"⟩, ⟨"Query", "m_User"⟩],
    .fields [⟨"Query", "id", "age"⟩, ⟨"Query", "age", "id"⟩]]

theorem servedUsers_readBack :
    (∀ document ∈ servedUsers.document.toOption, servedUsers.scope.Unambiguous document ∧
      (servedUsers.scope.applyToDocument document).ReadsBack) ∧
    ∃ c ∈ servedUsers.composite.toOption, RenameCall.ReadsBackAlong c swaps := by
  decide +kernel

theorem sharedUsers_readBack :
    sharedUsers.ComposesFaithfully ∧
    (∀ document ∈ sharedUsers.document.toOption, sharedUsers.scope.Unambiguous document ∧
      (sharedUsers.scope.applyToDocument document).ReadsBack) ∧
    ∃ c, c ∈ sharedUsers.composite.toOption := by
  refine ⟨?_, by decide +kernel, Option.isSome_iff_exists.1 ?_⟩
  · show ∀ documents ∈ _, Federation.ReadBack documents
    decide +kernel
  · decide +kernel

theorem restUsers_readBack :
    (∃ document ∈ (parseSchema convertedUsers.schema).toOption,
      document.Agrees convertedUsers.nodeFields convertedUsers.configuredFields) ∧
    (∀ document ∈ restUsers.document.toOption, restUsers.scope.Unambiguous document ∧
      (restUsers.scope.applyToDocument document).ReadsBack) ∧
    ∃ c, c ∈ restUsers.composite.toOption := by
  refine ⟨by decide +kernel, by decide +kernel, Option.isSome_iff_exists.1 ?_⟩
  decide +kernel

/-- Users are consistent whatever serves them, and stay so while names are swapped. -/
theorem users_stay_consistent :
    (∃ c, servedUsers.composite = .ok c ∧ (RenameCall.performAll c swaps).Consistent) ∧
    (∃ c, sharedUsers.composite = .ok c ∧ c.Consistent) ∧
    ∃ c, restUsers.composite = .ok c ∧ c.Consistent := by
  refine ⟨?_, ?_, ?_⟩
  · obtain ⟨hreads, c, hc, hcalls⟩ := servedUsers_readBack
    have hc := mem_toOption.1 hc
    obtain ⟨document, hdocument, hstays, -⟩ := composites_stay_consistent servedUsers c hc trivial
      trivial fun _ document h => (hreads document h).2
    have hunambiguous := (hreads document (mem_toOption.2 hdocument)).1
    exact ⟨c, hc, hstays hunambiguous swaps hcalls⟩
  · obtain ⟨hcomposes, hreads, c, hc⟩ := sharedUsers_readBack
    have hc := mem_toOption.1 hc
    obtain ⟨document, hdocument, hstays, -⟩ := composites_stay_consistent sharedUsers c hc trivial
      hcomposes fun _ document h => (hreads document h).2
    have hunambiguous := (hreads document (mem_toOption.2 hdocument)).1
    exact ⟨c, hc, hstays hunambiguous [] trivial⟩
  · obtain ⟨⟨own, hown, hagrees⟩, hreads, c, hc⟩ := restUsers_readBack
    have hc := mem_toOption.1 hc
    obtain ⟨document, hdocument, hstays, -⟩ := composites_stay_consistent restUsers c hc
      ⟨own, mem_toOption.1 hown, hagrees⟩ trivial fun _ document h => (hreads document h).2
    have hunambiguous := (hreads document (mem_toOption.2 hdocument)).1
    exact ⟨c, hc, hstays hunambiguous [] trivial⟩

/-- A server with a root type that is called as if it stood in the namespace. -/
def capturedField : Origin GraphQLPayload :=
  .graphql
    { GraphQLBackend.ofUrl "http://server" with
      http := { HttpBackend.default with apiNamespace := some "ns" } }
    "schema \x7b query: ns_A \x7d type ns_A \x7b x: Int a: A \x7d type A \x7b f: Int \x7d"

/-- The root type captures the field of another type, and the composite is not consistent. -/
theorem captured_field_breaks_consistency :
    ∃ c, capturedField.composite = .ok c ∧ ¬ c.Consistent := by
  obtain ⟨c, hc, document, hdocument, hagrees⟩ : ∃ c ∈ capturedField.composite.toOption,
      ∃ document ∈ (parseSchema c.schema).toOption,
        ¬ document.Agrees c.nodeFields c.configuredFields := by
    decide +kernel
  refine ⟨c, mem_toOption.1 hc, ?_⟩
  rintro ⟨read, hread, h⟩
  obtain rfl := Except.ok.inj (hread.symm.trans (mem_toOption.1 hdocument))
  exact hagrees h

end Supergraph
