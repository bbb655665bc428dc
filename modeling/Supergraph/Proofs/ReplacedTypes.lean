import Supergraph.Proofs.ScalarReplacement

/-!
# What replacing scalars changes

Replacing scalars goes over the fields of a document while it decides by their types, which it is
about to change, and a replacement may itself name a scalar of the document. What comes of it can be
said place by place, in terms of the document as it was.

**Theorem (`replaces_applyToDocument`).** The new document has the skeleton of the old one, in which
only the names in the types of fields and of their arguments are left out. The name in the type of a
field changes if it is a scalar of the document and there is a replacement for the field, the name
in the type of an argument if it is one and that replacement has an input type; such arguments are
listed in document order, with the scalar they had. Replacing scalars again changes nothing.
-/

namespace Supergraph

/-! ## Skeletons -/

/-- The wrappers of a type, around no name. -/
def TypeRef.wrappers (type : TypeRef) : TypeRef := type.mapInner fun _ => ""

def InputField.skeleton (argument : InputField) : InputField :=
  { argument with type := argument.type.wrappers }

/-- The field without the names in its type and in those of its arguments. -/
def Field.skeleton (field : Field) : Field :=
  { field with type := field.type.wrappers, arguments := field.arguments.map (·.skeleton) }

def TypeBody.skeleton : TypeBody → TypeBody
  | container kind interfaces fields => container kind interfaces (fields.map (·.skeleton))
  | body => body

def Definition.skeleton : Definition → Definition
  | type description ⟨name, directives, body⟩ => type description ⟨name, directives, body.skeleton⟩
  | extension ⟨name, directives, body⟩ => extension ⟨name, directives, body.skeleton⟩
  | definition => definition

/-- The document without the names in the types of fields and of their arguments. Everything else
is kept, input types and definitions of directives among it. -/
def Document.skeleton (document : Document) : Document :=
  ⟨document.definitions.map (·.skeleton)⟩

theorem Definition.skeleton_mapFields {f : String → Field → Field}
    (h : ∀ typeName field, (f typeName field).skeleton = field.skeleton) (definition : Definition) :
    (definition.mapDeclaration (·.mapFields f)).skeleton = definition.skeleton := by
  cases definition with
  | schema | directive => rfl
  | type description declaration | extension declaration =>
    obtain ⟨name, directives, body⟩ := declaration
    cases body with
    | container kind interfaces fields =>
      simp only [mapDeclaration, TypeDeclaration.mapFields, skeleton, TypeBody.skeleton,
        List.map_map, Function.comp_def, h]
    | _ => rfl

theorem Document.skeleton_mapFields {f : String → Field → Field}
    (h : ∀ typeName field, (f typeName field).skeleton = field.skeleton) (document : Document) :
    (document.mapFields f).skeleton = document.skeleton := by
  simp only [skeleton, mapFields, List.map_map, Function.comp_def,
    Definition.skeleton_mapFields h]

/-! ## Places -/

namespace Document

variable {document : Document}

/-- The type of the field at a place of a document, by the places of its container and itself, and
that field. -/
def typeAt? (document : Document) (container field : Nat) : Option (Coordinate × TypeRef) := do
  let c ← document.containers[container]?
  let f ← c.fields[field]?
  return (⟨c.name, f.name⟩, f.type)

/-- The arguments of all fields, in document order, each with the field it belongs to. -/
def arguments (document : Document) : List (Coordinate × InputField) :=
  document.containers.flatMap fun c => c.fields.flatMap fun f =>
    f.arguments.map fun argument => (⟨c.name, f.name⟩, argument)

instance : DecidablePred document.DeclaresScalar := fun _ =>
  decidable_of_iff _ ScalarReplacement.mem_customScalars

/-- What becomes of a type where `name?` is put for a scalar of the document. -/
structure Retypes (document : Document) (name? : Option String) (type result : TypeRef) :
    Prop where
  selected : ∀ name, name? = some name → document.DeclaresScalar type.inner →
    result = type.mapInner fun _ => name
  other : name? = none ∨ ¬ document.DeclaresScalar type.inner → result = type

end Document

namespace ScalarReplacement

variable {document : Document} {replacements : List ScalarReplacement}

/-- The response type of the first replacement for a field. -/
def responseType? (replacements : List ScalarReplacement) (field : Coordinate) : Option String :=
  (find? replacements field.typeName field.fieldName).map (·.responseType)

/-- Whether replacing scalars makes `result` out of `document`, where the arguments `listed` are
given other types. -/
structure Replaces (replacements : List ScalarReplacement) (document result : Document)
    (listed : List ArgumentRetyping) : Prop where
  skeleton : result.skeleton = document.skeleton
  types : ∀ i j field type, document.typeAt? i j = some (field, type) →
    ∃ type', result.typeAt? i j = some (field, type') ∧
      document.Retypes (responseType? replacements field) type type'
  arguments : ∀ i j k field argument, document.argumentAt? i j k = some (field, argument) →
    ∃ type', result.argumentAt? i j k = some (field, { argument with type := type' }) ∧
      document.Retypes (inputType? replacements field) argument.type type'
  listed : listed = (document.arguments.filter fun (field, argument) =>
      (inputType? replacements field).isSome ∧ document.DeclaresScalar argument.type.inner).map
    fun (field, argument) =>
      ⟨field.typeName, field.fieldName, argument.name, argument.type.inner⟩

/-! ## One type -/

/-- The type with a new name for a scalar at the bottom of its wrappers, if there is one. -/
def retypeBy (scalars : List String) (name? : Option String) (type : TypeRef) : TypeRef :=
  match name? with
  | some name => retype scalars name type
  | none => type

theorem retypes_retypeBy (document : Document) (name? : Option String) (type : TypeRef) :
    document.Retypes name? type (retypeBy (customScalars document) name? type) where
  selected := by
    rintro name rfl hscalar
    exact if_pos (List.contains_iff_mem.2 (mem_customScalars.2 hscalar))
  other := by
    intro h
    cases name? with
    | none => rfl
    | some name =>
      have hother := h.resolve_left (Option.some_ne_none name)
      exact if_neg (mt List.contains_iff_mem.1 (mt mem_customScalars.1 hother))

theorem wrappers_retypeBy (scalars : List String) (name? : Option String) (type : TypeRef) :
    (retypeBy scalars name? type).wrappers = type.wrappers := by
  unfold retypeBy retype
  split
  · split
    · exact TypeRef.mapInner_mapInner _ _ type
    · rfl
  · rfl

/-- A type is replaced once, also where its replacement is a scalar. -/
theorem retype_retype (scalars : List String) (name : String) (type : TypeRef) :
    retype scalars name (retype scalars name type) = retype scalars name type := by
  by_cases hscalar : scalars.contains type.inner
  · have hfirst : retype scalars name type = type.mapInner fun _ => name := if_pos hscalar
    rw [hfirst]
    unfold retype
    split
    · exact TypeRef.mapInner_mapInner _ _ type
    · rfl
  · have hfirst : retype scalars name type = type := if_neg hscalar
    rw [hfirst, hfirst]

/-! ## One field -/

variable (scalars : List String) (typeName : String)

theorem type_applyToField (field : Field) :
    (applyToField scalars replacements typeName field).type =
      retypeBy scalars (responseType? replacements ⟨typeName, field.name⟩) field.type := by
  unfold applyToField responseType?
  cases find? replacements typeName field.name <;> rfl

theorem applyToArgument_eq (field : Coordinate) (argument : InputField) :
    applyToArgument scalars replacements field argument =
      { argument with type := retypeBy scalars (inputType? replacements field) argument.type } := by
  unfold applyToArgument
  cases inputType? replacements field <;> rfl

theorem skeleton_applyToField (field : Field) :
    (applyToField scalars replacements typeName field).skeleton = field.skeleton := by
  have hwrappers : (applyToField scalars replacements typeName field).type.wrappers =
      field.type.wrappers := by
    rw [type_applyToField, wrappers_retypeBy]
  have harguments : (applyToField scalars replacements typeName field).arguments.map
      (·.skeleton) = field.arguments.map (·.skeleton) := by
    rw [arguments_applyToField, List.map_map]
    refine List.map_congr_left fun argument _ => ?_
    simp only [Function.comp_apply, applyToArgument_eq, InputField.skeleton, wrappers_retypeBy]
  have hrest : (applyToField scalars replacements typeName field).description =
        field.description ∧
      (applyToField scalars replacements typeName field).directives = field.directives := by
    unfold applyToField
    split <;> exact ⟨rfl, rfl⟩
  rw [Field.skeleton, hwrappers, harguments, hrest.1, hrest.2, name_applyToField, Field.skeleton]

theorem fieldRetypings_eq_filter (document : Document) (field : Field) :
    fieldRetypings (customScalars document) replacements typeName field =
      (field.arguments.filter fun argument =>
        (inputType? replacements ⟨typeName, field.name⟩).isSome ∧
          document.DeclaresScalar argument.type.inner).map fun argument =>
        ⟨typeName, field.name, argument.name, argument.type.inner⟩ := by
  unfold fieldRetypings inputType?
  rcases find? replacements typeName field.name with _ | ⟨_, _, _ | input, _⟩
  · simp
  · simp
  · simp [← mem_customScalars]

theorem applyToField_applyToField (field : Field) :
    applyToField scalars replacements typeName
        (applyToField scalars replacements typeName field) =
      applyToField scalars replacements typeName field := by
  cases hfind : find? replacements typeName field.name with
  | none => simp only [applyToField, hfind]
  | some replacement =>
    cases hinput : replacement.inputType with
    | none => simp only [applyToField, hfind, hinput, retype_retype]
    | some input =>
      simp only [applyToField, hfind, hinput, retype_retype, List.map_map, Function.comp_def]

/-! ## Documents -/

theorem typeAt?_applyToDocument (document : Document) (replacements : List ScalarReplacement)
    (i j : Nat) :
    (applyToDocument replacements document).typeAt? i j =
      (document.typeAt? i j).map fun (field, type) =>
        (field, retypeBy (customScalars document) (responseType? replacements field) type) := by
  simp only [Document.typeAt?, applyToDocument, Document.containers_mapFields, List.getElem?_map,
    Container.mapFields]
  cases document.containers[i]? with
  | none => rfl
  | some c =>
    simp only [Option.map_some, Option.bind_eq_bind, Option.bind_some, List.getElem?_map]
    cases c.fields[j]? with
    | none => rfl
    | some f =>
      simp only [Option.map_some, Option.bind_some, name_applyToField, type_applyToField,
        Option.pure_def]

/-- The list goes over all arguments of the document once. -/
theorem retypings_eq_filter (replacements : List ScalarReplacement) (document : Document) :
    retypings replacements document = (document.arguments.filter fun (field, argument) =>
        (inputType? replacements field).isSome ∧
          document.DeclaresScalar argument.type.inner).map
      fun (field, argument) =>
        ⟨field.typeName, field.fieldName, argument.name, argument.type.inner⟩ := by
  simp only [retypings, Document.arguments, List.filter_flatMap, List.map_flatMap]
  refine List.flatMap_congr fun c _ => List.flatMap_congr fun f _ => ?_
  rw [fieldRetypings_eq_filter, List.filter_map, List.map_map]
  rfl

theorem customScalars_mapFields (f : String → Field → Field) (document : Document) :
    customScalars (document.mapFields f) = customScalars document := by
  simp only [customScalars, Document.mapFields, List.filterMap_map]
  refine List.filterMap_congr fun definition _ => ?_
  cases definition with
  | schema | extension | directive => rfl
  | type description declaration =>
    obtain ⟨name, directives, body⟩ := declaration
    cases body <;> rfl

theorem applyToDocument_applyToDocument (replacements : List ScalarReplacement)
    (document : Document) :
    applyToDocument replacements (applyToDocument replacements document) =
      applyToDocument replacements document := by
  unfold applyToDocument
  rw [customScalars_mapFields, Document.mapFields_mapFields]
  simp only [applyToField_applyToField]

/-- **Replacing scalars changes the selected types, and nothing else; doing it twice is doing it
once.** -/
theorem replaces_applyToDocument (replacements : List ScalarReplacement) (document : Document) :
    Replaces replacements document (applyToDocument replacements document)
        (retypings replacements document) ∧
      applyToDocument replacements (applyToDocument replacements document) =
        applyToDocument replacements document := by
  refine ⟨⟨?skeleton, ?types, ?arguments, ?listed⟩, applyToDocument_applyToDocument ..⟩
  case skeleton =>
    exact Document.skeleton_mapFields (fun typeName field => skeleton_applyToField ..) document
  case types =>
    intro i j field type htype
    exact ⟨_, by rw [typeAt?_applyToDocument, htype]; rfl, retypes_retypeBy ..⟩
  case arguments =>
    intro i j k field argument hargument
    refine ⟨_, ?_, retypes_retypeBy ..⟩
    rw [argumentAt?_applyToDocument, hargument, Option.map_some]
    exact congrArg (fun argument => some (field, argument)) (applyToArgument_eq ..)
  case listed => exact retypings_eq_filter replacements document

/-- A query for what happened at some times. -/
def events : Document :=
  ⟨[.type none ⟨"JSON", [], .scalar⟩, .type none ⟨"Date", [], .scalar⟩,
    .type none ⟨"Query", [], .container .object [] [⟨none, "at",
      [⟨none, "times", .list (.named "JSON"), none, []⟩, ⟨none, "first", .named "Int", none, []⟩],
      .nonNull (.named "JSON"), []⟩]⟩]⟩

/-- Of two replacements for a field the first one counts, and a scalar that it puts there stays when
both are applied again. -/
theorem replaces_applyToDocument_events :
    let replacements : List ScalarReplacement :=
      [⟨"Query", "at", some "String", "Date"⟩, ⟨"Query", "at", none, "ID"⟩]
    let result := applyToDocument replacements events
    Replaces replacements events result (retypings replacements events) ∧
      result.typeAt? 0 0 = some (⟨"Query", "at"⟩, .nonNull (.named "Date")) ∧
      result.argumentAt? 0 0 0 =
        some (⟨"Query", "at"⟩, ⟨none, "times", .list (.named "String"), none, []⟩) ∧
      result.argumentAt? 0 0 1 = events.argumentAt? 0 0 1 ∧
      retypings replacements events = [⟨"Query", "at", "times", "JSON"⟩] ∧
      applyToDocument replacements result = result := by
  intro replacements result
  obtain ⟨hreplaces, hagain⟩ := replaces_applyToDocument replacements events
  have hscalar : events.DeclaresScalar "JSON" := by decide
  obtain ⟨type, htype, hretypes⟩ := hreplaces.types 0 0 _ _ rfl
  obtain ⟨times, htimes, htimesRetypes⟩ := hreplaces.arguments 0 0 0 _ _ rfl
  obtain ⟨first, hfirst, hfirstRetypes⟩ := hreplaces.arguments 0 0 1 _ _ rfl
  -- The response and input types are those of the first replacement.
  obtain rfl := hretypes.selected "Date" rfl hscalar
  obtain rfl := htimesRetypes.selected "String" rfl hscalar
  obtain rfl := hfirstRetypes.other (.inr (by decide))
  exact ⟨hreplaces, htype, htimes, hfirst, hreplaces.listed.trans (by decide), hagain⟩

end ScalarReplacement

end Supergraph
