import Supergraph.Proofs.Namespace.Classification
import Supergraph.Proofs.Results

/-!
# Backends in different namespaces

Two backends fit into one schema if no name that one of them has there is a name of the other. A
namespace stands in front of a name with an underscore between, but names and namespaces may have
underscores of their own, so that a name can be divided in more than one way: the type `b_c` in the
namespace `a` and the type `c` in the namespace `a_b` are both called `a_b_c`.

**Theorem (`isolates_iff`).** Two different namespaces keep two documents apart if and only if there
is no such pair of names: neither namespace is the other one followed by an underscore and a rest,
where the other document has that rest and an underscore in front of a name of the first one.

In particular namespaces without underscores always keep their documents apart.
-/

namespace Supergraph

/-! ## The names that are moved -/

namespace Document

/-- Whether a name is neither a root type nor a built-in scalar. -/
def IsPlain (document : Document) (name : String) : Prop :=
  ¬ (RootTypes.ofDocument document).isRoot name ∧ ¬ isBuiltinScalar name

instance (document : Document) : DecidablePred document.IsPlain :=
  fun _ => inferInstanceAs (Decidable (_ ∧ _))

/-- The types that are neither root types nor built-in scalars. -/
def plainTypes (document : Document) : List String := document.typeNames.filter document.IsPlain

/-- The names of the fields of root types. -/
def rootFieldNames (document : Document) : List String :=
  (document.occurrences.filter fun o =>
    (RootTypes.ofDocument document).isRoot o.container.name).map (·.field.name)

end Document

/-- What stands at the places of a second list where the first one satisfies `p`. -/
def pick {α β : Type} (p : α → Bool) (olds : List α) (news : List β) : List β :=
  ((olds.zip news).filter fun pair => p pair.1).map (·.2)

theorem pick_map {α β : Type} (p : α → Bool) (f : α → β) (olds : List α) :
    pick p olds (olds.map f) = (olds.filter p).map f := by
  induction olds with
  | nil => rfl
  | cons old olds ih =>
    unfold pick at ih ⊢
    by_cases h : p old <;> simp [h, ih]

namespace Namespace

/-- The names that plain types get in the composed schema, read off place by place. -/
def typeNamesGiven (ns : Namespace) (document : Document) : List String :=
  pick (document.IsPlain ·) document.typeNames (ns.applyToDocument document).typeNames

/-- The names that the fields of root types get in the composed schema, read off place by place. -/
def rootFieldNamesGiven (ns : Namespace) (document : Document) : List String :=
  pick (fun o => (RootTypes.ofDocument document).isRoot o.container.name) document.occurrences
    ((ns.applyToDocument document).occurrences.map (·.field.name))

theorem typeNames_applyToDocument (ns : Namespace) (document : Document) :
    (ns.applyToDocument document).typeNames =
      document.typeNames.map (ns.typeName (.ofDocument document)) := by
  rw [applyToDocument, Document.typeNames_mapFields, Document.typeNames_mapTypeNames]
  intro typeName field
  rfl

section Given

variable {n : String} (hn : n ≠ "") (document : Document)

include hn

theorem typeNamesGiven_eq :
    (ofName (some n) []).typeNamesGiven document = document.plainTypes.map (n ++ "_" ++ ·) := by
  have hp := name_ofName hn []
  rw [typeNamesGiven, typeNames_applyToDocument, pick_map, Document.plainTypes]
  refine List.map_congr_left fun name hname => ?_
  obtain ⟨-, hplain⟩ := List.mem_filter.1 hname
  obtain ⟨hroot, hscalar⟩ := of_decide_eq_true hplain
  have hmoved := (qualifiesType_iff hp).2 ⟨mt isRoot_iff.2 hroot, hscalar⟩
  rw [typeName, if_pos hmoved, qualify_eq hp]

theorem rootFieldNamesGiven_eq :
    (ofName (some n) []).rootFieldNamesGiven document =
      document.rootFieldNames.map (n ++ "_" ++ ·) := by
  have hp := name_ofName hn []
  rw [rootFieldNamesGiven, occurrences_applyToDocument, List.map_map, pick_map,
    Document.rootFieldNames, List.map_map]
  refine List.map_congr_left fun o ho => ?_
  obtain ⟨-, hroot⟩ := List.mem_filter.1 ho
  have hmoved : (ofName (some n) []).qualifiesRootField o.field.name :=
    (qualifiesRootField_iff hp).2 List.not_mem_nil
  have htype : (ofName (some n) []).typeName (.ofDocument document) o.container.name =
      o.container.name := typeName_of_mem (isRoot_iff.1 hroot)
  simp only [Function.comp_apply, occurrence, Field.mapTypeNames]
  rw [htype, fieldName, if_pos hroot, rootFieldName, if_pos hmoved, qualify_eq hp]

end Given

/-! ## Namespaces that continue each other -/

/-- The namespace `inner` goes on behind `outer`, and some name in `outers` goes on in the same way
before a name in `inners`. -/
def Meets (outer inner : String) (outers inners : List String) : Prop :=
  ∃ rest, inner = outer ++ "_" ++ rest ∧ ∃ name ∈ inners, rest ++ "_" ++ name ∈ outers

theorem exists_rest {n m a b : String} {more : List Char} (hne : n ≠ m)
    (hm : m.toList = n.toList ++ more) (ha : '_' :: a.toList = more ++ '_' :: b.toList) :
    ∃ rest, m = n ++ "_" ++ rest ∧ a = rest ++ "_" ++ b := by
  cases more with
  | nil =>
    rw [List.append_nil] at hm
    exact absurd (String.toList_inj.1 hm.symm) hne
  | cons c rest =>
    rw [List.cons_append] at ha
    obtain ⟨rfl, hrest⟩ := List.cons.inj ha
    refine ⟨String.ofList rest, String.toList_inj.1 ?_, String.toList_inj.1 ?_⟩
    · simp [hm]
    · simp [hrest]

/-- Where a name can be divided in two ways, one of the namespaces goes on behind the other. -/
theorem qualified_eq_iff {n₁ n₂ : String} (hne : n₁ ≠ n₂) (a b : String) :
    n₁ ++ "_" ++ a = n₂ ++ "_" ++ b ↔
      (∃ rest, n₂ = n₁ ++ "_" ++ rest ∧ a = rest ++ "_" ++ b) ∨
        ∃ rest, n₁ = n₂ ++ "_" ++ rest ∧ b = rest ++ "_" ++ a := by
  constructor
  · intro h
    have h : n₁.toList ++ '_' :: a.toList = n₂.toList ++ '_' :: b.toList := by
      simpa using congrArg String.toList h
    rcases List.append_eq_append_iff.1 h with ⟨more, hm, ha⟩ | ⟨more, hm, hb⟩
    · exact .inl (exists_rest hne hm ha)
    · exact .inr (exists_rest hne.symm hm hb)
  · rintro (⟨rest, rfl, rfl⟩ | ⟨rest, rfl, rfl⟩) <;> simp only [String.append_assoc]

theorem disjoint_qualified_iff {n₁ n₂ : String} (hne : n₁ ≠ n₂) (names others : List String) :
    (names.map (n₁ ++ "_" ++ ·)).Disjoint (others.map (n₂ ++ "_" ++ ·)) ↔
      ¬ Meets n₁ n₂ names others ∧ ¬ Meets n₂ n₁ others names := by
  constructor
  · intro hdisjoint
    -- Two prefixed names are the same if one namespace goes on where the other has its name.
    have hdiffer : ∀ a ∈ names, ∀ b ∈ others, n₁ ++ "_" ++ a ≠ n₂ ++ "_" ++ b := fun a ha b hb e =>
      hdisjoint (List.mem_map_of_mem ha) (e ▸ List.mem_map_of_mem hb)
    constructor
    · rintro ⟨rest, hrest, b, hb, ha⟩
      exact hdiffer _ ha b hb ((qualified_eq_iff hne _ b).2 (.inl ⟨rest, hrest, rfl⟩))
    · rintro ⟨rest, hrest, a, ha, hb⟩
      exact hdiffer a ha _ hb ((qualified_eq_iff hne a _).2 (.inr ⟨rest, hrest, rfl⟩))
  · rintro ⟨hfirst, hsecond⟩ name hname hother
    obtain ⟨a, ha, rfl⟩ := List.mem_map.1 hname
    obtain ⟨b, hb, e⟩ := List.mem_map.1 hother
    rcases (qualified_eq_iff hne a b).1 e.symm with ⟨rest, hrest, rfl⟩ | ⟨rest, hrest, rfl⟩
    · exact hfirst ⟨rest, hrest, b, hb, ha⟩
    · exact hsecond ⟨rest, hrest, a, ha, hb⟩

/-- The two backends have no name in common in the composed schema, neither of a plain type nor of a
field of a root type. -/
structure Isolates (ns other : Namespace) (document second : Document) : Prop where
  types : (ns.typeNamesGiven document).Disjoint (other.typeNamesGiven second)
  rootFields : (ns.rootFieldNamesGiven document).Disjoint (other.rootFieldNamesGiven second)

/-- **Different namespaces keep two documents apart** unless one of them continues the other and a
name of the other document does so as well. -/
theorem isolates_iff {n₁ n₂ : String} (h₁ : n₁ ≠ "") (h₂ : n₂ ≠ "") (hne : n₁ ≠ n₂)
    (d₁ d₂ : Document) :
    (ofName (some n₁) []).Isolates (ofName (some n₂) []) d₁ d₂ ↔
      (¬ Meets n₁ n₂ d₁.plainTypes d₂.plainTypes ∧ ¬ Meets n₂ n₁ d₂.plainTypes d₁.plainTypes) ∧
      (¬ Meets n₁ n₂ d₁.rootFieldNames d₂.rootFieldNames ∧
        ¬ Meets n₂ n₁ d₂.rootFieldNames d₁.rootFieldNames) := by
  rw [← disjoint_qualified_iff hne, ← disjoint_qualified_iff hne, ← typeNamesGiven_eq h₁,
    ← typeNamesGiven_eq h₂, ← rootFieldNamesGiven_eq h₁, ← rootFieldNamesGiven_eq h₂]
  exact ⟨fun h => ⟨h.types, h.rootFields⟩, fun ⟨htypes, hfields⟩ => ⟨htypes, hfields⟩⟩

/-- The users of two shops stay apart, although one namespace continues the other: no name goes on
as the namespace does. -/
theorem isolates_users :
    (ofName (some "shop") []).Isolates (ofName (some "shop_eu") []) users users := by
  have hnested : ∀ names, (∀ name ∈ names, "eu" ++ "_" ++ name ∉ names) →
      ¬ Meets "shop" "shop_eu" names names := by
    rintro names hnames ⟨rest, hrest, name, hname, h⟩
    have heu : "shop_" ++ "eu" = "shop_" ++ rest := hrest
    rw [String.append_right_inj] at heu
    subst heu
    exact hnames name hname h
  have hlonger : ∀ names, ¬ Meets "shop_eu" "shop" names names := by
    rintro names ⟨rest, hrest, -⟩
    have hlength := congrArg String.length hrest
    rw [String.length_append, String.length_append] at hlength
    have hshop : "shop".length = 4 ∧ "shop_eu".length = 7 := by decide
    omega
  refine (isolates_iff (by decide) (by decide) (by decide) users users).2
    ⟨⟨?_, hlonger _⟩, ?_, hlonger _⟩
  · exact hnested _ (by decide +kernel)
  · exact hnested _ (by decide +kernel)

/-- Two different schemas in two different namespaces become the same one. -/
theorem nested_namespaces_collide :
    let outer := ofName (some "a") []
    let inner := ofName (some "a_b") []
    let first := "type Query \x7b b_c: b_c \x7d type b_c \x7b x: Int \x7d"
    let second := "type Query \x7b c: c \x7d type c \x7b x: Int \x7d"
    ∃ d₁ d₂, parseSchema first = .ok d₁ ∧ parseSchema second = .ok d₂ ∧
      outer.applyToSchema first = inner.applyToSchema second ∧
      ¬ (outer.typeNamesGiven d₁).Disjoint (inner.typeNamesGiven d₂) ∧
      ¬ (outer.rootFieldNamesGiven d₁).Disjoint (inner.rootFieldNamesGiven d₂) ∧
      ¬ outer.Isolates inner d₁ d₂ := by
  intro outer inner first second
  obtain ⟨d₁, hd₁, d₂, hd₂, hschemas, htype, htype', hfield, hfield'⟩ :
      ∃ d₁ ∈ (parseSchema first).toOption, ∃ d₂ ∈ (parseSchema second).toOption,
        outer.applyToSchema first = inner.applyToSchema second ∧
        "a_b_c" ∈ outer.typeNamesGiven d₁ ∧ "a_b_c" ∈ inner.typeNamesGiven d₂ ∧
        "a_b_c" ∈ outer.rootFieldNamesGiven d₁ ∧ "a_b_c" ∈ inner.rootFieldNamesGiven d₂ := by
    decide +kernel
  exact ⟨d₁, d₂, mem_toOption.1 hd₁, mem_toOption.1 hd₂, hschemas, fun h => h htype htype',
    fun h => h hfield hfield', fun h => h.types htype htype'⟩

end Namespace

end Supergraph
