import Supergraph.Proofs.Consistency.Composites
import Supergraph.Proofs.RootTypes

/-!
# Entry points of a federation

The entry points of a schema for an operation are the fields of the root type that it has for the
operation. Every server of a federation has entry points of its own, and the composed schema should
have all of them, each under its name in the namespace.

The servers' schemas are put one behind the other, and the root types are those of all of them
together: the last `schema` definition counts for all, and if there is one, conventional names do
not count any more. So the type that is a root for one server may be a plain type for the gateway.

**Theorem (`keepsEntryPoints_iff`).** The entry points of all servers are kept if and only if each
of them is a field, of any server, of a type that comes to bear the name of the root type that all
schemas together have for the operation. This is so if the servers agree on the root types, and in
particular if no server has a `schema` definition.

Like the consistency of composites this says what the composed schema amounts to once it is read,
so it assumes that what is printed on the way reads back with the same fields and root types.
-/

namespace Supergraph

/-! ## Entry points -/

namespace Document

/-- The names of the fields of a type. -/
def fieldsOf (document : Document) (typeName : String) : List String :=
  (document.declares.filter fun x => x.1.typeName = typeName).map fun x => x.1.fieldName

/-- The names of the fields of the root type that the document has for an operation. -/
def entryPoints (document : Document) (operation : OperationType) : List String :=
  match (RootTypes.operations document).typeOf operation with
  | some root => document.fieldsOf root
  | none => []

/-- The fields and root types of a document. -/
def outline (document : Document) : List (Coordinate × Bool) × RootOperations :=
  (document.declares, RootTypes.operations document)

theorem ReadsBackAs.map {β γ : Type} {view : Document → β} {document : Document}
    (h : document.ReadsBackAs view) (g : β → γ) : document.ReadsBackAs (g ∘ view) := by
  obtain ⟨read, hread, hview⟩ := readsBackAs_iff.1 h
  exact readsBackAs_iff.2 ⟨read, hread, congrArg g hview⟩

theorem mem_fieldsOf {document : Document} {typeName name : String} :
    name ∈ document.fieldsOf typeName ↔
      ∃ external, (⟨typeName, name⟩, external) ∈ document.declares := by
  simp only [fieldsOf, List.mem_map, List.mem_filter, decide_eq_true_eq]
  constructor
  · rintro ⟨⟨⟨_, _⟩, external⟩, ⟨h, rfl⟩, rfl⟩
    exact ⟨external, h⟩
  · rintro ⟨external, h⟩
    exact ⟨_, ⟨h, rfl⟩, rfl⟩

theorem mem_entryPoints {document : Document} {operation : OperationType} {name : String} :
    name ∈ document.entryPoints operation ↔
      ∃ root, (RootTypes.operations document).typeOf operation = some root ∧
        name ∈ document.fieldsOf root := by
  unfold entryPoints
  split
  next root hroot => simp [hroot]
  next hroot => simp [hroot]

theorem mem_declaredNames_mk {definitions : List Definition} {name : String} :
    name ∈ (mk definitions).declaredNames ↔
      ∃ definition ∈ definitions, name ∈ (mk [definition]).declaredNames := by
  simp only [declaredNames, declarations, List.mem_map, List.mem_filterMap, List.mem_singleton,
    exists_eq_left]
  constructor
  · rintro ⟨declaration, ⟨definition, hdefinition, h⟩, rfl⟩
    exact ⟨definition, hdefinition, declaration, h, rfl⟩
  · rintro ⟨definition, hdefinition, declaration, h, rfl⟩
    exact ⟨declaration, ⟨definition, hdefinition, h⟩, rfl⟩

end Document

namespace Namespace

variable {ns : Namespace} {document : Document}

/-- Only the names of the root types matter for the name of a type. -/
theorem typeName_congr {roots other : RootTypes} (h : roots.names = other.names) :
    ns.typeName roots = ns.typeName other := by
  funext name
  simp only [typeName, qualifiesType, RootTypes.isRoot_eq_contains, h]

/-- The fields that a root type has in the composed schema come from the types that bear its name
there. -/
theorem mem_fieldsOf_applyToDocument {root x : String}
    (hroot : root ∈ (RootTypes.ofDocument document).names) :
    x ∈ (ns.applyToDocument document).fieldsOf root ↔
      ∃ typeName, ns.typeName (.ofDocument document) typeName = root ∧
        ∃ name ∈ document.fieldsOf typeName, ns.rootFieldName name = x := by
  have hmoved : ∀ name, ns.fieldName (.ofDocument document) root name = ns.rootFieldName name :=
    fun name => if_pos (isRoot_iff.2 hroot)
  rw [Document.mem_fieldsOf, declares_applyToDocument]
  constructor
  · rintro ⟨external, h⟩
    obtain ⟨o, ho, e⟩ := List.mem_map.1 h
    obtain ⟨e, -⟩ := Prod.mk.injEq .. ▸ e
    obtain ⟨htype, hname⟩ := Coordinate.mk.injEq .. ▸ e
    have htype : ns.typeName (.ofDocument document) o.container.name = root := htype
    have hname : ns.fieldName (.ofDocument document)
        (ns.typeName (.ofDocument document) o.container.name) o.field.name = x := hname
    rw [htype, hmoved] at hname
    refine ⟨o.container.name, htype, o.field.name, Document.mem_fieldsOf.2 ?_, hname⟩
    exact ⟨_, Document.mem_declares.2 ⟨o, ho, rfl, rfl⟩⟩
  · rintro ⟨typeName, htype, name, hname, rfl⟩
    obtain ⟨external, h⟩ := Document.mem_fieldsOf.1 hname
    obtain ⟨o, ho, hcoordinate, rfl⟩ := Document.mem_declares.1 h
    obtain ⟨rfl, rfl⟩ := Coordinate.mk.injEq .. ▸ hcoordinate
    refine ⟨o.field.isExternal, List.mem_map.2 ⟨o, ho, ?_⟩⟩
    have hcoordinate : (ns.occurrence (.ofDocument document) o).coordinate =
        ⟨ns.typeName (.ofDocument document) o.container.name, ns.fieldName (.ofDocument document)
          (ns.typeName (.ofDocument document) o.container.name) o.field.name⟩ := rfl
    rw [hcoordinate, htype, hmoved]

/-- All names of root fields are moved alike if none is skipped. -/
theorem rootFieldName_ofName_injective (name : Option String) :
    Function.Injective (ofName name []).rootFieldName := by
  cases hname : (ofName name []).name with
  | none =>
    have hid : (ofName name []).rootFieldName = id := by
      funext field
      simp [rootFieldName, qualifiesRootField, isEmpty, hname]
    rw [hid]
    exact Function.injective_id
  | some p => exact rootFieldName_injective_of_skipped hname fun _ h => absurd h List.not_mem_nil

end Namespace

namespace Federation

variable {federation : Federation} {documents : List Document}

/-! ## What is kept -/

/-- Whether every entry point of a server is one of the composed schema, under the name it has
there. -/
def KeepsEntryPoints (ns : Namespace) (documents : List Document) (schema : Document) : Prop :=
  ∀ document ∈ documents, ∀ operation, ∀ name ∈ document.entryPoints operation,
    ns.rootFieldName name ∈ schema.entryPoints operation

/-- Whether some server has the field in a type that comes to bear the name of the root type that
all schemas together have for the operation. -/
def IsServed (ns : Namespace) (documents : List Document) (operation : OperationType)
    (name : String) : Prop :=
  ∃ root, (RootTypes.operations (joined documents)).typeOf operation = some root ∧
    ∃ typeName, ns.typeName (.ofDocument (joined documents)) typeName = root ∧
      ∃ document ∈ documents, name ∈ document.fieldsOf typeName

/-- Whether every root type of a server is the one that all schemas together have for the operation.
-/
def RootsAgree (documents : List Document) : Prop :=
  ∀ document ∈ documents, ∀ operation root,
    (RootTypes.operations document).typeOf operation = some root →
      (RootTypes.operations (joined documents)).typeOf operation = some root

/-- Whether what is printed on the way to the composed schema reads back with the same fields and
root types. Without a namespace the moved document is not printed. -/
structure ComposesFaithfully (federation : Federation) (sdls : List String) : Prop where
  composes : ∀ documents ∈ (federation.documents sdls).toOption,
    ReadBackAs Document.outline documents
  moves : ¬ federation.scope.isEmpty →
    ∀ document ∈ (federation.documents sdls >>= composed).toOption,
      (federation.scope.applyToDocument document).ReadsBackAs Document.outline

theorem ReadBackAs.declares (h : ReadBackAs Document.outline documents) : ReadBack documents where
  definition definition hdefinition := (h.definition definition hdefinition).map Prod.fst
  joined := h.joined.map Prod.fst
  again document hdocument := (h.again document hdocument).map Prod.fst

theorem mem_fieldsOf_concat {typeName name : String} :
    name ∈ (concat documents).fieldsOf typeName ↔
      ∃ document ∈ documents, name ∈ document.fieldsOf typeName := by
  have hdeclares : (concat documents).declares = documents.flatMap Document.declares := by
    induction documents with
    | nil => rfl
    | cons document rest ih =>
      rw [List.flatMap_cons, ← ih]
      exact Document.declares_append _ _
  simp only [Document.mem_fieldsOf, hdeclares, List.mem_flatMap]
  constructor
  · rintro ⟨external, document, hdocument, h⟩
    exact ⟨document, hdocument, external, h⟩
  · rintro ⟨document, hdocument, external, h⟩
    exact ⟨external, document, hdocument, h⟩

/-- The entry points of the composed schema, in terms of the servers' schemas. -/
theorem mem_entryPoints_iff {ns : Namespace} {document schema : Document}
    (hreads : ReadBackAs Document.outline documents) (hcomposed : composed documents = .ok document)
    (hschema : schema.outline = (ns.applyToDocument document).outline) {operation : OperationType}
    {x : String} :
    x ∈ schema.entryPoints operation ↔
      ∃ name, IsServed ns documents operation name ∧ ns.rootFieldName name = x := by
  obtain ⟨-, hoperations⟩ := Prod.mk.injEq .. ▸ view_composed hreads hcomposed
  obtain ⟨hdeclares, hmoved⟩ := Prod.mk.injEq .. ▸ hschema
  have hfields : ∀ typeName,
      schema.fieldsOf typeName = (ns.applyToDocument document).fieldsOf typeName := by
    intro typeName
    rw [Document.fieldsOf, hdeclares, ← Document.fieldsOf]
  have hserved : ∀ typeName name, name ∈ document.fieldsOf typeName ↔
      ∃ document ∈ documents, name ∈ document.fieldsOf typeName := by
    intro typeName name
    rw [← mem_fieldsOf_concat, Document.mem_fieldsOf, Document.mem_fieldsOf]
    exact exists_congr fun external => mem_declares_composed hreads.declares hcomposed _
  -- Both documents name the same root types, so both move the same types.
  have htypes : ns.typeName (.ofDocument document) = ns.typeName (.ofDocument (joined documents)) :=
    Namespace.typeName_congr (by simp only [RootTypes.names, RootTypes.ofDocument, hoperations])
  rw [Document.mem_entryPoints, hmoved, ns.operations_moved document, hoperations]
  constructor
  · rintro ⟨root, hroot, hx⟩
    rw [hfields, Namespace.mem_fieldsOf_applyToDocument
      (RootTypes.mem_names_of_typeOf (hoperations ▸ hroot)), htypes] at hx
    obtain ⟨typeName, htype, name, hname, rfl⟩ := hx
    exact ⟨name, ⟨root, hroot, typeName, htype, (hserved _ _).1 hname⟩, rfl⟩
  · rintro ⟨name, ⟨root, hroot, typeName, htype, hname⟩, rfl⟩
    refine ⟨root, hroot, ?_⟩
    rw [hfields, Namespace.mem_fieldsOf_applyToDocument
      (RootTypes.mem_names_of_typeOf (hoperations ▸ hroot)), htypes]
    exact ⟨typeName, htype, name, (hserved _ _).2 hname, rfl⟩

theorem RootsAgree.isServed (h : RootsAgree documents) (ns : Namespace) {document : Document}
    (hdocument : document ∈ documents) {operation : OperationType} {name : String}
    (hname : name ∈ document.entryPoints operation) : IsServed ns documents operation name := by
  obtain ⟨root, hroot, hname⟩ := Document.mem_entryPoints.1 hname
  have hroot := h document hdocument operation root hroot
  have hstays : ns.typeName (.ofDocument (joined documents)) root = root :=
    Namespace.typeName_of_mem (RootTypes.mem_names_of_typeOf hroot)
  exact ⟨root, hroot, root, hstays, document, hdocument, hname⟩

/-- Servers without `schema` definitions agree on the root types: what one of them declares is
declared by all schemas together. -/
theorem rootsAgree_of_conventional (hreads : ReadBackAs Document.outline documents)
    (hnone : ∀ document ∈ documents, document.definitions.filterMap RootTypes.named? = []) :
    RootsAgree documents := by
  have hnamed : ∀ definition ∈ (concat documents).definitions,
      RootTypes.named? definition = none := by
    intro definition hdefinition
    obtain ⟨document, hdocument, hdefinition⟩ := List.mem_flatMap.1 hdefinition
    exact List.filterMap_eq_nil_iff.1 (hnone document hdocument) definition hdefinition
  have hsingle : ∀ definition ∈ (concat documents).definitions,
      (Document.mk [definition]).definitions.filterMap RootTypes.named? = [] := by
    intro definition hdefinition
    simp [hnamed definition hdefinition]
  have hjoined : (joined documents).definitions.filterMap RootTypes.named? = [] :=
    List.filterMap_eq_nil_iff.2 fun definition hdefinition =>
      hnamed definition (mem_of_mem_distinct hdefinition)
  intro document hdocument operation root hroot
  obtain ⟨rfl, hdeclared⟩ := (RootTypes.typeOf_eq_some_iff (hnone document hdocument)).1 hroot
  refine (RootTypes.typeOf_eq_some_iff hjoined).2 ⟨rfl, ?_⟩
  obtain ⟨definition, hdefinition, hdeclared⟩ := Document.mem_declaredNames_mk.1 hdeclared
  have hdefinition : definition ∈ (concat documents).definitions :=
    List.mem_flatMap.2 ⟨document, hdocument, hdefinition⟩
  -- Of equal definitions one is kept, and it declares the type as well.
  obtain ⟨kept, hkept, hsame⟩ := exists_mem_distinct_view hreads.definition hdefinition
  obtain ⟨-, hsame⟩ := Prod.mk.injEq .. ▸ hsame
  have hroot := (RootTypes.typeOf_eq_some_iff (hsingle definition hdefinition)).2 ⟨rfl, hdeclared⟩
  rw [← hsame] at hroot
  exact Document.mem_declaredNames_mk.2 ⟨kept, hkept,
    ((RootTypes.typeOf_eq_some_iff (hsingle kept (mem_of_mem_distinct hkept))).1 hroot).2⟩

/-- **A federation keeps the entry points of its servers** if and only if each of them is served as
one, and it does if the servers agree on the root types. -/
theorem keepsEntryPoints_iff (federation : Federation) (sdls : List String)
    (c : Composite GraphQLPayload) (hc : federation.composite sdls = .ok c)
    (hreads : federation.ComposesFaithfully sdls) :
    ∃ documents schema, federation.documents sdls = .ok documents ∧
      parseSchema c.schema = .ok schema ∧
      (KeepsEntryPoints federation.scope documents schema ↔
        ∀ document ∈ documents, ∀ operation, ∀ name ∈ document.entryPoints operation,
          IsServed federation.scope documents operation name) ∧
      (RootsAgree documents → KeepsEntryPoints federation.scope documents schema) ∧
      ((∀ document ∈ documents, document.definitions.filterMap RootTypes.named? = []) →
        RootsAgree documents) := by
  obtain ⟨documents, document, text, -, -, -, hdocuments, hcomposed, hdocument, hmoved, -⟩ :=
    exists_documents hc
  have hcomposes := hreads.composes documents (mem_toOption.2 hdocuments)
  have hmember : document ∈ (federation.documents sdls >>= composed).toOption :=
    mem_toOption.2 (bind_eq_ok.2 ⟨documents, hdocuments, hcomposed⟩)
  obtain ⟨schema, hschema, houtline⟩ := Namespace.view_of_applyToSchema hdocument hmoved
    fun hempty => hreads.moves hempty document hmember
  -- No name is skipped, so a moved name stands for one field only.
  have hentry : ∀ operation name,
      federation.scope.rootFieldName name ∈ schema.entryPoints operation ↔
        IsServed federation.scope documents operation name := by
    intro operation name
    rw [mem_entryPoints_iff hcomposes hcomposed houtline]
    constructor
    · rintro ⟨other, hserved, e⟩
      exact Namespace.rootFieldName_ofName_injective federation.apiNamespace e ▸ hserved
    · exact fun hserved => ⟨name, hserved, rfl⟩
  have hiff : KeepsEntryPoints federation.scope documents schema ↔
      ∀ document ∈ documents, ∀ operation, ∀ name ∈ document.entryPoints operation,
        IsServed federation.scope documents operation name :=
    forall₅_congr fun _ _ operation name _ => hentry operation name
  refine ⟨documents, schema, hdocuments, hschema, hiff, fun hagree => hiff.2 ?_,
    rootsAgree_of_conventional hcomposes⟩
  intro document hdocument operation name hname
  exact hagree.isServed _ hdocument hname

/-! ## Accounts and orders -/

/-- A server of accounts and one of orders, which share the namespace `ns`. -/
def shop : Federation :=
  { ofSubgraphs [.ofUrl "http://accounts", .ofUrl "http://orders"] with apiNamespace := some "ns" }

/-- The schemas without a `schema` definition. Only the second one has mutations. -/
def conventionalSdls : List String :=
  ["type Query\x7bme:Int\x7d", "type Query\x7btotal:Int\x7dtype Mutation\x7border:Int\x7d"]

/-- The same schemas, but the first one has a `schema` definition. -/
def mixedSdls : List String :=
  ["schema\x7bquery:Query\x7dtype Query\x7bme:Int\x7d",
    "type Query\x7btotal:Int\x7dtype Mutation\x7border:Int\x7d"]

/-- Without `schema` definitions the orders stay mutations. -/
theorem keepsEntryPoints_shop :
    ∃ documents schema, shop.documents conventionalSdls = .ok documents ∧
      KeepsEntryPoints shop.scope documents schema ∧
      "ns_order" ∈ schema.entryPoints .mutation := by
  have hreads : shop.ComposesFaithfully conventionalSdls := ⟨by decide +kernel, by decide +kernel⟩
  have hconventional : ∀ documents ∈ (shop.documents conventionalSdls).toOption,
      (∀ document ∈ documents, document.definitions.filterMap RootTypes.named? = []) ∧
        ∃ document ∈ documents, "order" ∈ document.entryPoints .mutation := by
    decide +kernel
  obtain ⟨c, hc⟩ : ∃ c, c ∈ (shop.composite conventionalSdls).toOption :=
    Option.isSome_iff_exists.1 (by decide +kernel)
  obtain ⟨documents, schema, hdocuments, -, -, hkeeps, hagree⟩ :=
    keepsEntryPoints_iff shop conventionalSdls c (mem_toOption.1 hc) hreads
  obtain ⟨hnone, document, hdocument, horder⟩ :=
    hconventional documents (mem_toOption.2 hdocuments)
  have hkeeps := hkeeps (hagree hnone)
  have hname : shop.scope.rootFieldName "order" = "ns_order" := by decide
  exact ⟨documents, schema, hdocuments, hkeeps, hname ▸ hkeeps document hdocument _ _ horder⟩

/-- The `schema` definition of one server makes the orders plain fields. -/
theorem schema_definition_hides_orders :
    ∃ c documents schema, shop.composite mixedSdls = .ok c ∧
      shop.documents mixedSdls = .ok documents ∧ parseSchema c.schema = .ok schema ∧
      ¬ KeepsEntryPoints shop.scope documents schema := by
  obtain ⟨c, hc, documents, hdocuments, schema, hschema, document, hdocument, horder, hlost⟩ :
      ∃ c ∈ (shop.composite mixedSdls).toOption,
        ∃ documents ∈ (shop.documents mixedSdls).toOption,
          ∃ schema ∈ (parseSchema c.schema).toOption, ∃ document ∈ documents,
            "order" ∈ document.entryPoints .mutation ∧
              shop.scope.rootFieldName "order" ∉ schema.entryPoints .mutation := by
    decide +kernel
  exact ⟨c, documents, schema, mem_toOption.1 hc, mem_toOption.1 hdocuments, mem_toOption.1 hschema,
    fun h => hlost (h document hdocument .mutation _ horder)⟩

end Federation

end Supergraph
