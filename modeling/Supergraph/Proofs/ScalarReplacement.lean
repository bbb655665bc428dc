import Supergraph.Proofs.Classify
import Supergraph.Proofs.DocumentMaps
import Supergraph.ScalarReplacement

/-!
# Replaced scalars and how arguments are sent

Replacing scalars goes over a document and leaves two things: the document with other types, and a
list of arguments that keep being sent as the scalar they had. A classification of the new document
looks its arguments up in that list, where it finds them by the names of type, field and argument.

**Theorem (`sends_applyToDocument`).** If a document declares no field twice and no field has two
arguments of one name, the two fit together: an argument of a replaced scalar has the input type of
the first replacement for its field, inside the same wrappers, and is sent as the scalar; every
other argument keeps its type and is sent as that.

**Proof.** The list has exactly the replaced arguments in it (`mem_retypings`), and where names are
unique an argument finds no entry but its own (`sentType_retypings`).
-/

namespace Supergraph

/-! ## Arguments -/

/-- The argument at a place of a document, by the places of its container, its field and itself, and
the field it belongs to. -/
def Document.argumentAt? (document : Document) (container field argument : Nat) :
    Option (Coordinate × InputField) := do
  let c ← document.containers[container]?
  let f ← c.fields[field]?
  let a ← f.arguments[argument]?
  return (⟨c.name, f.name⟩, a)

/-- Whether a field has one configuration, with one argument called `argument`, which is sent as
`type`. -/
def Classification.Sends (c : Classification) (field : Coordinate) (argument type : String) :
    Prop :=
  ∃ config sent, c.fields.filter (·.coordinate = field) = [config] ∧
    config.arguments.filter (·.name = argument) = [sent] ∧ sent.renameTypeTo = type

/-- Whether the document declares a scalar that not every schema has. -/
def Document.DeclaresScalar (document : Document) (name : String) : Prop :=
  (∃ description directives, .type description ⟨name, directives, .scalar⟩ ∈ document.definitions) ∧
    isBuiltinScalar name = false

theorem Document.exists_of_argumentAt? {document : Document} {i j k : Nat} {field : Coordinate}
    {argument : InputField} (h : document.argumentAt? i j k = some (field, argument)) :
    ∃ o ∈ document.occurrences, o.coordinate = field ∧ argument ∈ o.field.arguments := by
  simp only [argumentAt?, Option.bind_eq_bind, Option.bind_eq_some_iff, Option.pure_def,
    Option.some.injEq, Prod.mk.injEq] at h
  obtain ⟨c, hc, f, hf, a, ha, hfield, rfl⟩ := h
  exact ⟨⟨c, f⟩, mem_occurrences.2 ⟨List.mem_of_getElem? hc, List.mem_of_getElem? hf⟩, hfield,
    List.mem_of_getElem? ha⟩

/-- The configuration of a field that occurs with an argument sends that argument as it is looked
up. -/
theorem sends_of_classify {document : Document} {retypings : List ArgumentRetyping}
    {c : Classification} (hc : classify document none retypings = .ok c) {o : Occurrence}
    (ho : o ∈ document.occurrences) {argument : String} (hargument : argument ∈ o.argumentNames) :
    c.Sends o.coordinate argument (Document.sentType retypings o.coordinate argument) := by
  obtain ⟨-, rfl⟩ := classify_eq_ok.1 hc
  have hconfigured : o.coordinate ∈ document.fieldsWith (·.IsConfigured) :=
    List.mem_map_of_mem (List.mem_filter.2
      ⟨ho, decide_eq_true (.inl (List.ne_nil_of_mem hargument))⟩)
  have hnames : argument ∈ (document.occurrencesOf o.coordinate).flatMap (·.argumentNames) :=
    List.mem_flatMap.2 ⟨o, List.mem_filter.2 ⟨ho, decide_eq_true rfl⟩, hargument⟩
  refine ⟨document.fieldConfig retypings o.coordinate, ⟨argument, .fieldArgument, [], .default,
    Document.sentType retypings o.coordinate argument⟩, ?_, ?_, rfl⟩
  · refine (filter_key_map (fun _ => rfl) (nodup_eraseDups _)).trans ?_
    exact if_pos (List.mem_eraseDups.2 hconfigured)
  · refine (filter_key_map (fun _ => rfl) (nodup_eraseDups _)).trans ?_
    exact if_pos (List.mem_eraseDups.2 hnames)

namespace ScalarReplacement

variable {document : Document} {replacements : List ScalarReplacement}

/-! ## Replaced types -/

/-- The input type of the first replacement for a field. -/
def inputType? (replacements : List ScalarReplacement) (field : Coordinate) : Option String :=
  (find? replacements field.typeName field.fieldName).bind (·.inputType)

/-- An argument of a field once scalars are replaced. -/
def applyToArgument (scalars : List String) (replacements : List ScalarReplacement)
    (field : Coordinate) (argument : InputField) : InputField :=
  match inputType? replacements field with
  | some input => { argument with type := retype scalars input argument.type }
  | none => argument

theorem mem_customScalars {name : String} :
    name ∈ customScalars document ↔ document.DeclaresScalar name := by
  simp only [customScalars, List.mem_filterMap, Document.DeclaresScalar]
  constructor
  · rintro ⟨definition, hmem, h⟩
    unfold customScalar? at h
    split at h
    · split_ifs at h with hbuiltin
      obtain rfl := Option.some.inj h
      exact ⟨⟨_, _, hmem⟩, Bool.eq_false_iff.2 hbuiltin⟩
    · cases h
  · rintro ⟨⟨description, directives, hmem⟩, hbuiltin⟩
    exact ⟨_, hmem, by simp [customScalar?, hbuiltin]⟩

theorem name_applyToField (scalars : List String) (replacements : List ScalarReplacement)
    (typeName : String) (field : Field) :
    (applyToField scalars replacements typeName field).name = field.name := by
  unfold applyToField
  split <;> rfl

theorem arguments_applyToField (scalars : List String) (replacements : List ScalarReplacement)
    (typeName : String) (field : Field) :
    (applyToField scalars replacements typeName field).arguments =
      field.arguments.map (applyToArgument scalars replacements ⟨typeName, field.name⟩) := by
  unfold applyToField applyToArgument inputType?
  cases find? replacements typeName field.name with
  | none => simp
  | some replacement => cases hinput : replacement.inputType <;> simp [hinput]

/-- Every argument stays at its place. -/
theorem argumentAt?_applyToDocument (document : Document) (replacements : List ScalarReplacement)
    (i j k : Nat) :
    (applyToDocument replacements document).argumentAt? i j k =
      (document.argumentAt? i j k).map fun (field, argument) =>
        (field, applyToArgument (customScalars document) replacements field argument) := by
  simp only [Document.argumentAt?, applyToDocument, Document.containers_mapFields,
    List.getElem?_map, Container.mapFields]
  cases document.containers[i]? with
  | none => rfl
  | some c =>
    simp only [Option.map_some, Option.bind_eq_bind, Option.bind_some, List.getElem?_map]
    cases c.fields[j]? with
    | none => rfl
    | some f =>
      simp only [Option.map_some, Option.bind_some, name_applyToField, arguments_applyToField,
        List.getElem?_map]
      cases f.arguments[k]? <;> rfl

/-! ## The list of replaced arguments -/

/-- The list has the arguments with a custom scalar whose field gets an input type. -/
theorem mem_retypings {retyping : ArgumentRetyping} :
    retyping ∈ retypings replacements document ↔
      ∃ o ∈ document.occurrences, ∃ argument ∈ o.field.arguments,
        (inputType? replacements o.coordinate).isSome ∧
          document.DeclaresScalar argument.type.inner ∧
            retyping = ⟨o.container.name, o.field.name, argument.name, argument.type.inner⟩ := by
  have hfield (typeName : String) (field : Field) :
      retyping ∈ fieldRetypings (customScalars document) replacements typeName field ↔
        (inputType? replacements ⟨typeName, field.name⟩).isSome ∧
          ∃ argument ∈ field.arguments, document.DeclaresScalar argument.type.inner ∧
            retyping = ⟨typeName, field.name, argument.name, argument.type.inner⟩ := by
    unfold fieldRetypings inputType?
    rcases find? replacements typeName field.name with _ | ⟨_, _, _ | input, _⟩
    · simp
    · simp
    · simp [← mem_customScalars, and_assoc, eq_comm]
  simp only [retypings, List.mem_flatMap, hfield]
  constructor
  · rintro ⟨c, hc, f, hf, hinput, argument, hargument, h⟩
    exact ⟨⟨c, f⟩, Document.mem_occurrences.2 ⟨hc, hf⟩, argument, hargument, hinput, h⟩
  · rintro ⟨⟨c, f⟩, ho, argument, hargument, hinput, h⟩
    obtain ⟨hc, hf⟩ := Document.mem_occurrences.1 ho
    exact ⟨c, hc, f, hf, hinput, argument, hargument, h⟩

/-- Where names are unique an argument finds its own entry, or none. -/
theorem sentType_retypings (hfields : (document.occurrences.map (·.coordinate)).Nodup)
    (harguments : ∀ o ∈ document.occurrences, o.argumentNames.Nodup) {o : Occurrence}
    (ho : o ∈ document.occurrences) {argument : InputField}
    (hargument : argument ∈ o.field.arguments) {sent : String}
    (hsent : ((inputType? replacements o.coordinate).isSome ∧
        document.DeclaresScalar argument.type.inner ∧ sent = argument.type.inner) ∨
      (¬ ((inputType? replacements o.coordinate).isSome ∧
        document.DeclaresScalar argument.type.inner) ∧ sent = "")) :
    Document.sentType (retypings replacements document) o.coordinate argument.name = sent := by
  have hown {r : ArgumentRetyping} (hr : r ∈ retypings replacements document)
      (hfor : r.typeName = o.coordinate.typeName ∧ r.fieldName = o.coordinate.fieldName ∧
        r.argumentName = argument.name) :
      (inputType? replacements o.coordinate).isSome ∧
        document.DeclaresScalar argument.type.inner ∧ r.renameTypeTo = argument.type.inner := by
    obtain ⟨o', ho', argument', hargument', hinput, hscalar, rfl⟩ := mem_retypings.1 hr
    obtain ⟨htype, hname, hargumentName⟩ := hfor
    have hcoordinate : o'.coordinate = o.coordinate := congrArg₂ Coordinate.mk htype hname
    -- The entry speaks of this very field, since no other one has its coordinate.
    obtain rfl : o' = o := List.inj_on_of_nodup_map hfields ho' ho hcoordinate
    obtain rfl : argument' = argument :=
      List.inj_on_of_nodup_map (harguments o' ho) hargument' hargument hargumentName
    exact ⟨hinput, hscalar, rfl⟩
  unfold Document.sentType
  extract_lets isFor
  cases hfind : (retypings replacements document).find? (isFor ·) with
  | some r =>
    have hfor : isFor r := by simpa using List.find?_some hfind
    obtain ⟨hinput, hscalar, hr⟩ := hown (List.mem_of_find?_eq_some hfind) hfor
    rcases hsent with ⟨-, -, rfl⟩ | ⟨hnot, -⟩
    · exact hr
    · exact absurd ⟨hinput, hscalar⟩ hnot
  | none =>
    rcases hsent with ⟨hinput, hscalar, -⟩ | ⟨-, rfl⟩
    · have hentry := mem_retypings.2 ⟨o, ho, argument, hargument, hinput, hscalar, rfl⟩
      exact absurd (decide_eq_true ⟨rfl, rfl, rfl⟩) (List.find?_eq_none.1 hfind _ hentry)
    · rfl

/-! ## Both passes together -/

theorem name_applyToArgument (scalars : List String) (replacements : List ScalarReplacement)
    (field : Coordinate) (argument : InputField) :
    (applyToArgument scalars replacements field argument).name = argument.name := by
  unfold applyToArgument
  split <;> rfl

/-- Every field occurs where it occurred, with arguments of the same names. -/
theorem exists_occurrence_applyToDocument (replacements : List ScalarReplacement) {o : Occurrence}
    (ho : o ∈ document.occurrences) :
    ∃ o' ∈ (applyToDocument replacements document).occurrences,
      o'.coordinate = o.coordinate ∧ o'.argumentNames = o.argumentNames := by
  refine ⟨o.mapFields (applyToField (customScalars document) replacements), ?_, ?_, ?_⟩
  · rw [applyToDocument, Document.occurrences_mapFields]
    exact List.mem_map_of_mem ho
  · exact congrArg (Coordinate.mk _) (name_applyToField ..)
  · rw [Occurrence.argumentNames, Occurrence.mapFields, arguments_applyToField, List.map_map]
    exact List.map_congr_left fun argument _ => name_applyToArgument ..

/-- **Replaced arguments are sent as the scalar they had, and no others are.** -/
theorem sends_applyToDocument (document : Document) (replacements : List ScalarReplacement)
    (hfields : (document.occurrences.map (·.coordinate)).Nodup)
    (harguments : ∀ o ∈ document.occurrences, o.argumentNames.Nodup) {c : Classification}
    (hc : classify (applyToDocument replacements document) none
      (retypings replacements document) = .ok c)
    {i j k : Nat} {field : Coordinate} {argument : InputField}
    (hargument : document.argumentAt? i j k = some (field, argument)) :
    (∀ input, inputType? replacements field = some input →
      document.DeclaresScalar argument.type.inner →
        c.Sends field argument.name argument.type.inner ∧
          (applyToDocument replacements document).argumentAt? i j k =
            some (field, { argument with type := argument.type.mapInner fun _ => input })) ∧
    (inputType? replacements field = none ∨ ¬ document.DeclaresScalar argument.type.inner →
      c.Sends field argument.name "" ∧
        (applyToDocument replacements document).argumentAt? i j k = some (field, argument)) := by
  obtain ⟨o, ho, rfl, hmem⟩ := Document.exists_of_argumentAt? hargument
  obtain ⟨o', ho', hcoordinate, hnames⟩ := exists_occurrence_applyToDocument replacements ho
  have hsends {sent : String}
      (hsent : Document.sentType (retypings replacements document) o.coordinate argument.name =
        sent) : c.Sends o.coordinate argument.name sent := by
    have hname : argument.name ∈ o'.argumentNames := hnames ▸ List.mem_map_of_mem hmem
    rw [← hsent, ← hcoordinate]
    exact sends_of_classify hc ho' hname
  -- The classified argument keeps its name, so the list is asked for the same entry.
  have hplace := argumentAt?_applyToDocument document replacements i j k
  rw [hargument, Option.map_some] at hplace
  constructor
  · intro input hinput hscalar
    refine ⟨hsends ?_, hplace.trans ?_⟩
    · exact sentType_retypings hfields harguments ho hmem (.inl ⟨by rw [hinput]; rfl, hscalar, rfl⟩)
    · have hretype : retype (customScalars document) input argument.type =
          argument.type.mapInner fun _ => input :=
        if_pos (List.contains_iff_mem.2 (mem_customScalars.2 hscalar))
      simp only [applyToArgument, hinput, hretype]
  · intro hnot
    -- Nothing is listed for the argument, for want of an input type or of a custom scalar.
    have hunselected : ¬ ((inputType? replacements o.coordinate).isSome ∧
        document.DeclaresScalar argument.type.inner) := by
      rintro ⟨hinput, hscalar⟩
      rcases hnot with hnone | hother
      · rw [hnone] at hinput
        cases hinput
      · exact hother hscalar
    refine ⟨hsends ?_, hplace.trans ?_⟩
    · exact sentType_retypings hfields harguments ho hmem (.inr ⟨hunselected, rfl⟩)
    · cases hinput : inputType? replacements o.coordinate with
      | none => simp only [applyToArgument, hinput]
      | some input =>
        have hother : argument.type.inner ∉ customScalars document := fun hscalar =>
          hunselected ⟨by rw [hinput]; rfl, mem_customScalars.1 hscalar⟩
        have hretype : retype (customScalars document) input argument.type = argument.type :=
          if_neg (mt List.contains_iff_mem.1 hother)
        simp only [applyToArgument, hinput, hretype]

/-! ## A document with a JSON column -/

/-- A database with a JSON column, which one of its fields is called with. -/
def contacts : Document := ⟨[
  .type none ⟨"JSON", [], .scalar⟩,
  .type none ⟨"Query", [], .container .object [] [
    ⟨none, "find", [⟨none, "by", .list (.nonNull (.named "JSON")), none, []⟩,
      ⟨none, "first", .named "Int", none, []⟩], .named "User", []⟩]⟩,
  .type none ⟨"User", [⟨"key", [("fields", .string "id")]⟩], .container .object [] [
    ⟨none, "id", [], .named "ID", []⟩,
    ⟨none, "contact", [⟨none, "patch", .named "JSON", none, []⟩], .named "JSON", []⟩]⟩]⟩

/-- The argument `by` gets another type and is sent as it was; a field without a replacement keeps
the argument that has the same scalar. -/
theorem sends_applyToDocument_contacts :
    let replacements : List ScalarReplacement :=
      [⟨"Query", "find", some "ContactInput", "User"⟩, ⟨"Query", "find", none, "User"⟩,
        .ofResponse "User" "contact" "Contact"]
    ∃ c, classify (applyToDocument replacements contacts) none
        (retypings replacements contacts) = .ok c ∧
      (contacts.occurrences.map (·.coordinate)).Nodup ∧
      (∀ o ∈ contacts.occurrences, o.argumentNames.Nodup) ∧
      c.Sends ⟨"Query", "find"⟩ "by" "JSON" ∧
      (applyToDocument replacements contacts).argumentAt? 0 0 0 = some (⟨"Query", "find"⟩,
        ⟨none, "by", .list (.nonNull (.named "ContactInput")), none, []⟩) ∧
      c.Sends ⟨"User", "contact"⟩ "patch" "" ∧
      (applyToDocument replacements contacts).argumentAt? 1 1 0 =
        some (⟨"User", "contact"⟩, ⟨none, "patch", .named "JSON", none, []⟩) := by
  intro replacements
  have hfields : (contacts.occurrences.map (·.coordinate)).Nodup := by decide
  have harguments : ∀ o ∈ contacts.occurrences, o.argumentNames.Nodup := by decide
  have hclassify : classify (applyToDocument replacements contacts) none
      (retypings replacements contacts) =
        .ok ((applyToDocument replacements contacts).classification
          (retypings replacements contacts)) := classify_eq_ok.2 ⟨by decide +kernel, rfl⟩
  have hscalar : contacts.DeclaresScalar "JSON" :=
    mem_customScalars.1 (by decide)
  have hby := (sends_applyToDocument contacts replacements hfields harguments hclassify
    (i := 0) (j := 0) (k := 0) rfl).1 "ContactInput" (by decide) hscalar
  have hpatch := (sends_applyToDocument contacts replacements hfields harguments hclassify
    (i := 1) (j := 1) (k := 0) rfl).2 (.inl (by decide))
  exact ⟨_, hclassify, hfields, harguments, hby.1, hby.2, hpatch.1, hpatch.2⟩

end ScalarReplacement

end Supergraph
