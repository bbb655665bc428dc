import Mathlib.Data.PEquiv
import Mathlib.Logic.Equiv.Basic
import Supergraph.Proofs.DocumentMaps
import Supergraph.Proofs.ReplacedTypes

/-!
# The places of type names

A document names types in certain places (`TypePlace`), and says other things besides
(`Document.nameless`). The two parts make up the document (`Document.eq_of_nameless`), so a change
of type names can be told by what it does to each of them.

**Theorem (`mapTypeNames_covers_places`).** Changing type names puts the new name in every place
whose name is given one, and makes no other difference. One change after another is the change that
gives a name what the second one makes of what the first one makes of it. An injective change is
undone by its inverse exactly if the document has no name that the change leaves alone and also
gives to another name; the two are one name afterwards (`inverse_takes_kept_name`).
-/

namespace Supergraph

/-! ## Places -/

/-- A place in a definition where a type is named. Lists are counted from zero. -/
inductive TypePlace where
  | declared
  | interface (i : Nat)
  | member (i : Nat)
  | field (i : Nat)
  | argument (field argument : Nat)
  | inputField (i : Nat)
  | directiveArgument (i : Nat)
  | query
  | mutation
  | subscription
deriving DecidableEq, Repr, Inhabited

def TypeBody.typeNameAt? : TypeBody → TypePlace → Option String
  | container _ interfaces _, .interface i => interfaces[i]?
  | container _ _ fields, .field i => fields[i]?.map (·.type.inner)
  | container _ _ fields, .argument i j => do
    let field ← fields[i]?
    field.arguments[j]?.map (·.type.inner)
  | union members, .member i => members[i]?
  | input fields, .inputField i => fields[i]?.map (·.type.inner)
  | _, _ => none

def TypeDeclaration.typeNameAt? (declaration : TypeDeclaration) : TypePlace → Option String
  | .declared => some declaration.name
  | place => declaration.body.typeNameAt? place

def Definition.typeNameAt? : Definition → TypePlace → Option String
  | schema _ roots, .query => roots.query
  | schema _ roots, .mutation => roots.mutation
  | schema _ roots, .subscription => roots.subscription
  | type _ declaration, place => declaration.typeNameAt? place
  | extension declaration, place => declaration.typeNameAt? place
  | directive d, .directiveArgument i => d.arguments[i]?.map (·.type.inner)
  | _, _ => none

/-- The type that a document names at a place of a definition. -/
def Document.typeNameAt? (document : Document) (i : Nat) (place : TypePlace) : Option String := do
  let definition ← document.definitions[i]?
  definition.typeNameAt? place

/-! ## What is said besides -/

def TypeBody.nameless : TypeBody → TypeBody
  | scalar => scalar
  | container kind interfaces fields =>
    container kind (interfaces.map fun _ => "") (fields.map (·.skeleton))
  | union members => union (members.map fun _ => "")
  | enum values => enum values
  | input fields => input (fields.map (·.skeleton))

def TypeDeclaration.nameless (declaration : TypeDeclaration) : TypeDeclaration :=
  ⟨"", declaration.directives, declaration.body.nameless⟩

def RootOperations.nameless (roots : RootOperations) : RootOperations :=
  ⟨roots.query.map fun _ => "", roots.mutation.map fun _ => "", roots.subscription.map fun _ => ""⟩

def Definition.nameless : Definition → Definition
  | schema directives roots => schema directives roots.nameless
  | type description declaration => type description declaration.nameless
  | extension declaration => extension declaration.nameless
  | directive d => directive { d with arguments := d.arguments.map (·.skeleton) }

/-- The document without the names of types. -/
def Document.nameless (document : Document) : Document :=
  ⟨document.definitions.map (·.nameless)⟩

/-! ## What becomes of both under a change of names -/

section Changes

variable (f : String → String)

@[simp] theorem TypeRef.wrappers_mapInner (type : TypeRef) :
    (type.mapInner f).wrappers = type.wrappers :=
  TypeRef.mapInner_mapInner f _ type

@[simp] theorem InputField.skeleton_mapTypeNames (field : InputField) :
    (field.mapTypeNames f).skeleton = field.skeleton := by
  simp [skeleton, mapTypeNames]

@[simp] theorem Field.skeleton_mapTypeNames (field : Field) :
    (field.mapTypeNames f).skeleton = field.skeleton := by
  simp [skeleton, mapTypeNames]

theorem TypeBody.nameless_mapTypeNames (body : TypeBody) :
    (body.mapTypeNames f).nameless = body.nameless := by
  cases body <;> simp [nameless, mapTypeNames, Function.comp_def]

theorem Definition.nameless_mapTypeNames (definition : Definition) :
    (definition.mapTypeNames f).nameless = definition.nameless := by
  cases definition <;>
    simp [nameless, mapTypeNames, TypeDeclaration.nameless, TypeDeclaration.mapTypeNames,
      TypeBody.nameless_mapTypeNames, RootOperations.nameless, RootOperations.mapTypeNames,
      Function.comp_def]

theorem Document.nameless_mapTypeNames (document : Document) :
    (document.mapTypeNames f).nameless = document.nameless := by
  simp [nameless, mapTypeNames, Definition.nameless_mapTypeNames]

theorem TypeBody.typeNameAt?_mapTypeNames (body : TypeBody) (place : TypePlace) :
    (body.mapTypeNames f).typeNameAt? place = (body.typeNameAt? place).map f := by
  cases body <;> cases place <;>
    simp [typeNameAt?, mapTypeNames, Field.mapTypeNames, InputField.mapTypeNames, Option.map_bind,
      Option.bind_map, Function.comp_def]

theorem Definition.typeNameAt?_mapTypeNames (definition : Definition) (place : TypePlace) :
    (definition.mapTypeNames f).typeNameAt? place = (definition.typeNameAt? place).map f := by
  have hdeclaration (declaration : TypeDeclaration) :
      (declaration.mapTypeNames f).typeNameAt? place = (declaration.typeNameAt? place).map f := by
    cases place <;>
      simp [TypeDeclaration.typeNameAt?, TypeDeclaration.mapTypeNames,
        TypeBody.typeNameAt?_mapTypeNames]
  cases definition with
  | type _ declaration | extension declaration => exact hdeclaration declaration
  | schema directives roots =>
    cases place <;> simp [typeNameAt?, mapTypeNames, RootOperations.mapTypeNames]
  | directive d =>
    cases place <;> simp [typeNameAt?, mapTypeNames, InputField.mapTypeNames, Function.comp_def]

theorem Document.typeNameAt?_mapTypeNames (document : Document) (i : Nat) (place : TypePlace) :
    (document.mapTypeNames f).typeNameAt? i place = (document.typeNameAt? i place).map f := by
  simp [typeNameAt?, mapTypeNames, Option.bind_map, Option.map_bind,
    Definition.typeNameAt?_mapTypeNames]

end Changes

/-! ## Both make up the document -/

/-- Lists with the same images are the same if entries at one place with the same image are. -/
theorem eq_of_map_eq {α β : Type} {f : α → β} {as bs : List α} (h : as.map f = bs.map f)
    (hentries : ∀ (i : Nat) (a b : α), as[i]? = some a → bs[i]? = some b → f a = f b → a = b) :
    as = bs := by
  refine List.ext_getElem? fun i => ?_
  have hi := congrArg (·[i]?) h
  simp only [List.getElem?_map] at hi
  cases ha : as[i]? with
  | none =>
    rw [ha, Option.map_none] at hi
    exact (Option.map_eq_none_iff.1 hi.symm).symm
  | some a =>
    rw [ha, Option.map_some] at hi
    obtain ⟨b, hb, hab⟩ := Option.map_eq_some_iff.1 hi.symm
    rw [hb, hentries i a b ha hb hab.symm]

theorem TypeRef.eq_of_wrappers {first second : TypeRef}
    (hwrappers : first.wrappers = second.wrappers) (hinner : first.inner = second.inner) :
    first = second := by
  induction first generalizing second with
  | named name =>
    cases second with
    | named other => exact congrArg named hinner
    | list | nonNull => cases hwrappers
  | list item ih =>
    cases second with
    | list other => exact congrArg list (ih (list.inj hwrappers) hinner)
    | named | nonNull => cases hwrappers
  | nonNull type ih =>
    cases second with
    | nonNull other => exact congrArg nonNull (ih (nonNull.inj hwrappers) hinner)
    | named | list => cases hwrappers

theorem InputField.eq_of_skeleton {first second : InputField}
    (hskeleton : first.skeleton = second.skeleton)
    (hinner : first.type.inner = second.type.inner) : first = second := by
  obtain ⟨description, name, type, default, directives⟩ := first
  obtain ⟨description', name', type', default', directives'⟩ := second
  obtain ⟨rfl, rfl, hwrappers, rfl, rfl⟩ := mk.inj hskeleton
  obtain rfl : type = type' := TypeRef.eq_of_wrappers hwrappers hinner
  rfl

theorem InputField.eq_of_skeletons {first second : List InputField}
    (hskeletons : first.map (·.skeleton) = second.map (·.skeleton))
    (hinner : ∀ i : Nat, first[i]?.map (·.type.inner) = second[i]?.map (·.type.inner)) :
    first = second :=
  eq_of_map_eq hskeletons fun i a b ha hb h => eq_of_skeleton h (by simpa [ha, hb] using hinner i)

theorem Field.eq_of_skeleton {first second : Field} (hskeleton : first.skeleton = second.skeleton)
    (hinner : first.type.inner = second.type.inner)
    (harguments : ∀ i : Nat,
      first.arguments[i]?.map (·.type.inner) = second.arguments[i]?.map (·.type.inner)) :
    first = second := by
  obtain ⟨description, name, arguments, type, directives⟩ := first
  obtain ⟨description', name', arguments', type', directives'⟩ := second
  obtain ⟨rfl, rfl, hskeletons, hwrappers, rfl⟩ := mk.inj hskeleton
  obtain rfl : type = type' := TypeRef.eq_of_wrappers hwrappers hinner
  obtain rfl : arguments = arguments' := InputField.eq_of_skeletons hskeletons harguments
  rfl

theorem TypeBody.eq_of_nameless {first second : TypeBody}
    (hnameless : first.nameless = second.nameless)
    (hnames : ∀ place, first.typeNameAt? place = second.typeNameAt? place) : first = second := by
  cases first with
  | scalar =>
    cases second with
    | scalar => rfl
    | _ => cases hnameless
  | enum values =>
    cases second with
    | enum => exact hnameless
    | _ => cases hnameless
  | container kind interfaces fields =>
    cases second with
    | container kind' interfaces' fields' =>
      obtain ⟨rfl, -, hskeletons⟩ := container.inj hnameless
      -- Interfaces are nothing but names, so the places alone give them back.
      have hinterfaces : interfaces = interfaces' :=
        List.ext_getElem? fun i => hnames (.interface i)
      have hfields : fields = fields' := eq_of_map_eq hskeletons fun i a b ha hb h =>
        Field.eq_of_skeleton h (by simpa [typeNameAt?, ha, hb] using hnames (.field i))
          fun j => by simpa [typeNameAt?, ha, hb] using hnames (.argument i j)
      rw [hinterfaces, hfields]
    | _ => cases hnameless
  | union members =>
    cases second with
    | union members' => exact congrArg union (List.ext_getElem? fun i => hnames (.member i))
    | _ => cases hnameless
  | input fields =>
    cases second with
    | input fields' =>
      exact congrArg input (InputField.eq_of_skeletons (input.inj hnameless) fun i =>
        hnames (.inputField i))
    | _ => cases hnameless

theorem TypeDeclaration.eq_of_nameless {first second : TypeDeclaration}
    (hnameless : first.nameless = second.nameless)
    (hnames : ∀ place, first.typeNameAt? place = second.typeNameAt? place) : first = second := by
  obtain ⟨name, directives, body⟩ := first
  obtain ⟨name', directives', body'⟩ := second
  obtain ⟨-, rfl, hbody⟩ := mk.inj hnameless
  obtain rfl := Option.some.inj (hnames .declared)
  obtain rfl : body = body' := by
    refine TypeBody.eq_of_nameless hbody fun place => ?_
    have hplace := hnames place
    cases place with
    | declared => cases body <;> cases body' <;> rfl
    | _ => exact hplace
  rfl

theorem Definition.eq_of_nameless {first second : Definition}
    (hnameless : first.nameless = second.nameless)
    (hnames : ∀ place, first.typeNameAt? place = second.typeNameAt? place) : first = second := by
  cases first with
  | schema directives roots =>
    cases second with
    | schema directives' roots' =>
      obtain ⟨rfl, -⟩ := schema.inj hnameless
      obtain ⟨query, mutation, subscription⟩ := roots
      obtain ⟨query', mutation', subscription'⟩ := roots'
      obtain rfl : query = query' := hnames .query
      obtain rfl : mutation = mutation' := hnames .mutation
      obtain rfl : subscription = subscription' := hnames .subscription
      rfl
    | _ => cases hnameless
  | type description declaration =>
    cases second with
    | type description' declaration' =>
      obtain ⟨rfl, hdeclaration⟩ := type.inj hnameless
      rw [TypeDeclaration.eq_of_nameless hdeclaration hnames]
    | _ => cases hnameless
  | extension declaration =>
    cases second with
    | extension declaration' =>
      rw [TypeDeclaration.eq_of_nameless (extension.inj hnameless) hnames]
    | _ => cases hnameless
  | directive d =>
    cases second with
    | directive d' =>
      obtain ⟨description, name, arguments, repeatable, locations⟩ := d
      obtain ⟨description', name', arguments', repeatable', locations'⟩ := d'
      obtain ⟨rfl, rfl, hskeletons, rfl, rfl⟩ :=
        DirectiveDefinition.mk.inj (directive.inj hnameless)
      obtain rfl : arguments = arguments' :=
        InputField.eq_of_skeletons hskeletons fun i => hnames (.directiveArgument i)
      rfl
    | _ => cases hnameless

/-- What a document says without the names of types and the names in all places make it up. -/
theorem Document.eq_of_nameless {first second : Document}
    (hnameless : first.nameless = second.nameless)
    (hnames : ∀ i place, first.typeNameAt? i place = second.typeNameAt? i place) :
    first = second := by
  obtain ⟨definitions⟩ := first
  obtain ⟨definitions'⟩ := second
  refine congrArg mk (eq_of_map_eq (mk.inj hnameless) fun i a b ha hb h =>
    Definition.eq_of_nameless h fun place => ?_)
  simpa [typeNameAt?, ha, hb] using hnames i place

/-! ## Changes of names -/

/-- New names for some of the names. -/
abbrev NameChange := String → Option String

namespace NameChange

/-- What becomes of a name. Without a new one it stays. -/
def apply (g : NameChange) (name : String) : String := (g name).getD name

/-- One change after another one, which may also change names that the first one leaves alone. -/
def andThen (first second : NameChange) : NameChange := fun name =>
  match first name with
  | some newName => some (second.apply newName)
  | none => second name

theorem apply_andThen (first second : NameChange) :
    (first.andThen second).apply = second.apply ∘ first.apply := by
  funext name
  cases h : first name <;> simp [apply, andThen, h]

/-- An injective change is undone for a name exactly if it gives the name a new one, or gives it to
no other name. -/
theorem apply_symm_apply_iff (g : String ≃. String) (name : String) :
    apply g.symm (apply g name) = name ↔ (g name = none → ∀ other, g other ≠ some name) := by
  cases hname : g name with
  | some newName =>
    have hback : g.symm newName = some name := g.eq_some_iff.2 hname
    simp [apply, hname, hback]
  | none =>
    have hkept : apply g name = name := by simp [apply, hname]
    rw [hkept]
    constructor
    · rintro h - other hother
      have hback : g.symm name = some other := g.eq_some_iff.2 hother
      rw [apply, hback, Option.getD_some] at h
      rw [h, hname] at hother
      cases hother
    · intro h
      cases hback : g.symm name with
      | none => simp [apply, hback]
      | some other => exact absurd (g.eq_some_iff.1 hback) (h rfl other)

theorem apply_symm_apply_of_injective {g : String ≃. String} (hg : Function.Injective (apply g))
    (name : String) : apply g.symm (apply g name) = name := by
  refine (apply_symm_apply_iff g name).2 fun hname other hother => ?_
  have heq : apply g other = apply g name := by simp [apply, hname, hother]
  rw [hg heq, hname] at hother
  cases hother

end NameChange

namespace Document

/-- Whether `result` is `document` with a new name in every place where one is given for the old
name, and with no other difference. -/
structure IsRenamed (g : NameChange) (document result : Document) : Prop where
  nameless : result.nameless = document.nameless
  names : ∀ i place, result.typeNameAt? i place = (document.typeNameAt? i place).map g.apply

theorem isRenamed_iff {g : NameChange} {document result : Document} :
    IsRenamed g document result ↔ result = document.mapTypeNames g.apply := by
  constructor
  · intro h
    have hnameless := h.nameless.trans (document.nameless_mapTypeNames g.apply).symm
    refine eq_of_nameless hnameless fun i place => ?_
    rw [h.names, typeNameAt?_mapTypeNames]
  · rintro rfl
    exact ⟨document.nameless_mapTypeNames _, document.typeNameAt?_mapTypeNames _⟩

theorem mapTypeNames_andThen (first second : NameChange) (document : Document) :
    (document.mapTypeNames first.apply).mapTypeNames second.apply =
      document.mapTypeNames (first.andThen second).apply := by
  rw [mapTypeNames_mapTypeNames, NameChange.apply_andThen]

theorem mapTypeNames_eq_self_iff {f : String → String} {document : Document} :
    document.mapTypeNames f = document ↔
      ∀ i place name, document.typeNameAt? i place = some name → f name = name := by
  constructor
  · intro h i place name hname
    have hplace := document.typeNameAt?_mapTypeNames f i place
    rw [h, hname, Option.map_some] at hplace
    exact (Option.some.inj hplace).symm
  · intro h
    refine eq_of_nameless (document.nameless_mapTypeNames f) fun i place => ?_
    rw [typeNameAt?_mapTypeNames]
    cases hname : document.typeNameAt? i place with
    | none => rfl
    | some name => rw [Option.map_some, h i place name hname]

/-- **Changing type names changes them in all places, and nothing else.** Two changes are one, and
an injective change is undone by its inverse exactly if no name in the document that it leaves alone
is one that it gives. -/
theorem mapTypeNames_covers_places :
    (∀ (g : NameChange) (document result : Document),
      IsRenamed g document result ↔ result = document.mapTypeNames g.apply) ∧
    (∀ (first second : NameChange) (document : Document),
      (document.mapTypeNames first.apply).mapTypeNames second.apply =
        document.mapTypeNames (first.andThen second).apply) ∧
    ∀ (g : String ≃. String) (document : Document),
      ((document.mapTypeNames (NameChange.apply g)).mapTypeNames (NameChange.apply g.symm) =
          document ↔
        ∀ i place name, document.typeNameAt? i place = some name →
          g name = none → ∀ other, g other ≠ some name) ∧
      (Function.Injective (NameChange.apply g) →
        (document.mapTypeNames (NameChange.apply g)).mapTypeNames (NameChange.apply g.symm) =
          document) := by
  refine ⟨fun g document result => isRenamed_iff, mapTypeNames_andThen, fun g document => ?_⟩
  simp only [mapTypeNames_mapTypeNames, mapTypeNames_eq_self_iff, Function.comp_apply]
  exact ⟨by simp only [NameChange.apply_symm_apply_iff],
    fun hg _ _ name _ => NameChange.apply_symm_apply_of_injective hg name⟩

/-- The users of a service, who search for each other and for persons. -/
def community : Document :=
  ⟨[.schema [] ⟨some "User", none, some "Feed"⟩,
    .type (some "A member.") ⟨"User", [⟨"key", [("fields", .string "id")]⟩],
      .container .object ["Person"]
        [⟨none, "friends", [⟨none, "to", .nonNull (.named "Person"), none, []⟩],
          .list (.nonNull (.named "User")), []⟩]⟩,
    .extension ⟨"Person", [], .container .interface [] [⟨none, "User", [], .named "Feed", []⟩]⟩,
    .type none ⟨"Reader", [], .union ["User", "Guest"]⟩,
    .type none ⟨"Role", [], .enum [⟨none, "Person", []⟩]⟩,
    .type none ⟨"Search", [], .input [⟨none, "by", .named "User", some (.string "User"), []⟩]⟩,
    .directive ⟨none, "Person", [⟨none, "of", .named "Person", none, []⟩], false, ["FIELD"]⟩]⟩

theorem mapTypeNames_covers_places_community :
    let g : String ≃. String := (Equiv.swap "User" "Person").toPEquiv
    let result := community.mapTypeNames (NameChange.apply g)
    result.typeNames = ["Person", "Feed", "Person", "User", "Person", "User", "User", "Feed",
      "Reader", "Person", "Guest", "Role", "Search", "Person", "User"] ∧
    IsRenamed g community result ∧ result.mapTypeNames (NameChange.apply g.symm) = community := by
  intro g result
  have hg : Function.Injective (NameChange.apply g) := (Equiv.swap "User" "Person").injective
  obtain ⟨hrenamed, -, hinverse⟩ := mapTypeNames_covers_places
  exact ⟨by decide, (hrenamed g community result).2 rfl, (hinverse g community).2 hg⟩

/-- A name that is left alone is not told apart from one that is given. -/
theorem inverse_takes_kept_name :
    let document : Document := ⟨[.type none ⟨"A", [], .scalar⟩, .type none ⟨"B", [], .scalar⟩]⟩
    let g : String ≃. String := PEquiv.single "A" "B"
    (document.mapTypeNames (NameChange.apply g)).mapTypeNames (NameChange.apply g.symm) ≠
      document := by
  intro document g h
  exact absurd (congrArg declaredNames h) (by decide)

end Document

end Supergraph
