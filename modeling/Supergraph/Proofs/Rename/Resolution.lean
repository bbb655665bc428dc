import Supergraph.Proofs.Rename.Edits
import Supergraph.Proofs.Rename.SourcePaths

/-!
# Field sets that resolve

A field set selects fields of some type, and below each of them fields of the type that it returns.
`Document.Resolves` follows it through the fields that a document declares, level by level.

**Theorem (`fieldSets_resolve_iff`).** When fields are renamed, a field set of a directive that
resolves before selects the same fields under their new names exactly if these are names of the
language and no field below the top level gets another one (`KeepsBelow`).

Only the top level of a field set is renamed, so below it every name has to stay. A field set of one
level has nothing below. The last section shows one of two levels that resolves no more
(`renamed_identifier_breaks_key`).
-/

namespace Supergraph

/-! ## Paths in field sets -/

mutual

/-- The fields of a field set at every level, each as the names that lead to it. -/
def FieldSet.paths : FieldSet → List (List String)
  | [] => []
  | field :: rest => field.paths ++ FieldSet.paths rest

/-- A field and the fields below it, each as the names that lead to it. -/
def SelectedField.paths : SelectedField → List (List String)
  | .mk name nested => [name] :: (FieldSet.paths nested).map (name :: ·)

end

theorem FieldSet.isName_of_mem_paths {depth : Nat} {fields : FieldSet} (h : Writable depth fields) :
    ∀ path ∈ fields.paths, ∀ name ∈ path, Lexer.isName name.toList := by
  induction h with
  | nil => simp [paths]
  | @cons depth name nested rest hname _ _ ihnested ihrest =>
    rw [paths, SelectedField.paths, List.cons_append, List.forall_mem_cons,
      List.forall_mem_append, List.forall_mem_map]
    refine ⟨List.forall_mem_singleton.2 hname, fun path hpath => ?_, ihrest⟩
    exact List.forall_mem_cons.2 ⟨hname, ihnested path hpath⟩

/-! ## Resolving field sets -/

namespace Document

/-- The field set resolves against the type: its names are fields of the type, and what is selected
below resolves against the types they return. The fields are listed as those that lead to them. -/
inductive Resolves (document : Document) : String → FieldSet → List (List Coordinate) → Prop
  | nil {typeName : String} : Resolves document typeName [] []
  | cons {typeName name returned : String} {nested rest : FieldSet}
      {below others : List (List Coordinate)}
      (hfield : (⟨typeName, name⟩, returned) ∈ document.fieldTypes)
      (hnested : Resolves document returned nested below)
      (hrest : Resolves document typeName rest others) :
      Resolves document typeName (.mk name nested :: rest)
        ([⟨typeName, name⟩] :: below.map (⟨typeName, name⟩ :: ·) ++ others)

namespace Resolves

variable {document : Document} {typeName : String} {fields : FieldSet}
  {steps : List (List Coordinate)}

theorem paths_eq (h : document.Resolves typeName fields steps) :
    fields.paths = steps.map (List.map (·.fieldName)) := by
  induction h with
  | nil => rfl
  | cons _ _ _ ihnested ihrest =>
    simp [FieldSet.paths, SelectedField.paths, ihnested, ihrest]

theorem mem_steps (h : document.Resolves typeName fields steps) :
    ∀ field ∈ fields, [⟨typeName, field.name⟩] ∈ steps := by
  induction h with
  | nil => exact List.forall_mem_nil _
  | cons _ _ _ _ ihrest =>
    refine List.forall_mem_cons.2 ⟨List.mem_cons_self, fun field hfield => ?_⟩
    exact List.mem_append_right _ (ihrest field hfield)

end Resolves

end Document

/-! ## Renamed field sets -/

namespace FieldRename

open FieldSet (parse)

variable {renames : List FieldRename} {document other : Document} {typeName text : String}
  {fields : FieldSet} {steps : List (List Coordinate)}

/-- Only the start of a path is renamed, as a field of the type. -/
theorem paths_applyToFieldSet (fields : FieldSet) :
    (applyToFieldSet renames typeName fields).paths =
      fields.paths.map (List.modifyHead (apply renames typeName)) := by
  induction fields with
  | nil => rfl
  | cons field rest ih =>
    obtain ⟨name, nested⟩ := field
    have hcons : applyToFieldSet renames typeName (.mk name nested :: rest) =
        .mk (apply renames typeName name) nested :: applyToFieldSet renames typeName rest := rfl
    rw [hcons, FieldSet.paths, FieldSet.paths, ih]
    simp [SelectedField.paths]

section Fields

variable
  (hother : other.fieldTypes = document.fieldTypes.map (Prod.map (newNames renames).coordinate id))
  (h : document.Resolves typeName fields steps)

include hother h in
/-- If the names below the top level stay, the renamed field set selects the renamed fields. -/
theorem resolves_applyToFieldSet (hkeeps : ∀ path ∈ steps, ∀ step ∈ path.tail,
    apply renames step.typeName step.fieldName = step.fieldName) :
    other.Resolves typeName (applyToFieldSet renames typeName fields)
      (steps.map (List.map (newNames renames).coordinate)) := by
  induction h with
  | nil => exact .nil
  | @cons typeName name returned nested rest below others hfield hnested _ ihnested ihrest =>
    simp only [List.cons_append, List.forall_mem_cons, List.forall_mem_append,
      List.forall_mem_map, List.tail_cons] at hkeeps
    obtain ⟨-, hbelow, hothers⟩ := hkeeps
    -- All names below this field stay, so what is selected there stays as it is.
    have hsame : applyToFieldSet renames returned nested = nested := by
      refine applyToFieldSet_eq_self fun field hmem => ?_
      exact hbelow _ (hnested.mem_steps field hmem) _ (List.mem_singleton_self _)
    have hinside := ihnested fun path hpath step hstep =>
      hbelow path hpath step (List.mem_of_mem_tail hstep)
    rw [hsame] at hinside
    have hrenamed : (⟨typeName, apply renames typeName name⟩, returned) ∈ other.fieldTypes := by
      rw [hother]
      exact List.mem_map_of_mem (f := Prod.map (newNames renames).coordinate id) hfield
    have hsteps : ∀ first : Coordinate,
        ([first] :: below.map (first :: ·) ++ others).map (List.map (newNames renames).coordinate) =
          [(newNames renames).coordinate first] ::
            (below.map (List.map (newNames renames).coordinate)).map
              ((newNames renames).coordinate first :: ·) ++
            others.map (List.map (newNames renames).coordinate) := by
      simp [Function.comp_def]
    rw [hsteps]
    exact .cons hrenamed hinside (ihrest hothers)

include h in
/-- If the renamed field set selects the renamed fields, the names below the top level stay. -/
theorem keeps_of_resolves (hrenamed : other.Resolves typeName
      (applyToFieldSet renames typeName fields)
      (steps.map (List.map (newNames renames).coordinate))) :
    ∀ path ∈ steps, ∀ step ∈ path.tail,
      apply renames step.typeName step.fieldName = step.fieldName := by
  have hpaths := hrenamed.paths_eq
  rw [paths_applyToFieldSet, h.paths_eq, List.map_map, List.map_map] at hpaths
  intro path hpath
  have hpath := List.map_inj_left.1 hpaths path hpath
  cases path with
  | nil => exact fun _ hstep => absurd hstep List.not_mem_nil
  | cons first tail =>
    have htail : tail.map (·.fieldName) =
        tail.map fun step => apply renames step.typeName step.fieldName := by
      have := (List.cons.inj hpath).2
      rwa [List.map_map] at this
    exact fun step hstep => (List.map_inj_left.1 htail step hstep).symm

include h in
theorem isName_of_steps (hnames : ∀ path ∈ steps, ∀ step ∈ path,
      Lexer.isName (apply renames step.typeName step.fieldName).toList) :
    ∀ field ∈ fields, Lexer.isName (apply renames typeName field.name).toList := by
  intro field hfield
  exact hnames _ (h.mem_steps field hfield) ⟨typeName, field.name⟩ List.mem_cons_self

end Fields

end FieldRename

/-! ## Texts -/

/-- The text of a field set, and the type whose fields it selects. -/
structure FieldSetText where
  typeName : String
  text : String
deriving DecidableEq, Repr

namespace Document

/-- The field sets of a document, in the order of their directives. -/
def fieldSetTexts (document : Document) : List FieldSetText :=
  document.selectors.flatMap fun selector =>
    selector.directive.fieldTexts.map (⟨selector.typeName, ·⟩)

/-- The text is a field set that selects these fields. -/
def ResolvesText (document : Document) (source : FieldSetText) (steps : List (List Coordinate)) :
    Prop :=
  ∃ fields, FieldSet.parse source.text = .ok fields ∧
    document.Resolves source.typeName fields steps

theorem fieldSetTexts_edit (edit : FieldEdit) (document : Document) :
    (document.edit edit).fieldSetTexts = document.fieldSetTexts.map fun source =>
      { source with text := edit.fieldSet source.typeName source.text } := by
  simp only [fieldSetTexts, selectors_edit, List.flatMap_map, List.map_flatMap, Selector.edit,
    Directive.fieldTexts_mapFieldTexts, List.map_map]
  rfl

end Document

namespace FieldRename

open FieldSet (parse)

variable {renames : List FieldRename} {document other : Document} {typeName text : String}
  {fields : FieldSet} {steps : List (List Coordinate)}

/-- What a document has to keep of itself in print: its fields, and its field sets. -/
def fieldsAndTexts (document : Document) : List (Coordinate × String) × List FieldSetText :=
  (document.fieldTypes, document.fieldSetTexts)

/-- All these fields have names of the language after the renames, and those below the top level
keep the names they have. -/
def KeepsBelow (renames : List FieldRename) (steps : List (List Coordinate)) : Prop :=
  ∀ path ∈ steps,
    (∀ step ∈ path, Lexer.isName (apply renames step.typeName step.fieldName).toList) ∧
      ∀ step ∈ path.tail, apply renames step.typeName step.fieldName = step.fieldName

/-- A field set goes on to select the same fields exactly if those below the top level keep their
names. -/
theorem resolvesText_iff {source : FieldSetText}
    (hother : other.fieldTypes =
      document.fieldTypes.map (Prod.map (newNames renames).coordinate id))
    (h : document.ResolvesText source steps) :
    other.ResolvesText
        { source with text := (edit renames).fieldSet source.typeName source.text }
        (steps.map (List.map (newNames renames).coordinate)) ↔
      KeepsBelow renames steps := by
  obtain ⟨fields, hparse, hresolves⟩ := h
  constructor
  · rintro ⟨read, hread, hrenamed⟩
    -- What is read are names, so the new text is the print of the renamed field set.
    have hnames : ∀ path ∈ steps, ∀ step ∈ path,
        Lexer.isName (apply renames step.typeName step.fieldName).toList := by
      intro path hpath step hstep
      have hpaths := FieldSet.isName_of_mem_paths (FieldSet.writable_of_parse hread)
      rw [hrenamed.paths_eq, List.map_map] at hpaths
      exact hpaths _ (List.mem_map_of_mem hpath) _
        (List.mem_map_of_mem (List.mem_map_of_mem hstep))
    have hrenamedText := parse_renamed hparse (applyToFieldSetText_of_parse hparse)
      (isName_of_steps hresolves hnames)
    obtain rfl := Except.ok.inj (hread.symm.trans hrenamedText)
    exact fun path hpath => ⟨hnames path hpath, keeps_of_resolves hresolves hrenamed path hpath⟩
  · intro hkeeps
    have hnames := isName_of_steps hresolves fun path hpath => (hkeeps path hpath).1
    exact ⟨_, parse_renamed hparse (applyToFieldSetText_of_parse hparse) hnames,
      resolves_applyToFieldSet hother hresolves fun path hpath => (hkeeps path hpath).2⟩

/-- **Field sets go on to resolve** exactly if the fields below their top level keep their names. -/
theorem fieldSets_resolve_iff (renames : List FieldRename) (schema renamed : String)
    (document : Document) (hdocument : parseSchema schema = .ok document)
    (happly : applyToSchema renames schema = .ok renamed)
    (hreads : ∀ printed ∈ (RenameCall.fields renames).printed? schema,
      printed.ReadsBackAs fieldsAndTexts) :
    ∃ other, parseSchema renamed = .ok other ∧
      List.Forall₂ (fun source target => target.typeName = source.typeName ∧
          ∀ steps, document.ResolvesText source steps →
            (other.ResolvesText target (steps.map (List.map (newNames renames).coordinate)) ↔
              KeepsBelow renames steps))
        document.fieldSetTexts other.fieldSetTexts := by
  obtain ⟨changed, other, hchanged, hother, hview⟩ :=
    view_of_applyToSchema hdocument happly hreads
  obtain ⟨hfields, htexts⟩ := Prod.mk.injEq .. ▸ hview
  have hedit : document.edit (edit renames) = changed :=
    (orLast_eq_ok.1 ((applyUnlessEmpty_eq renames document).symm.trans hchanged)).2
  rw [fieldTypes_of_applyUnlessEmpty hchanged] at hfields
  rw [← hedit, Document.fieldSetTexts_edit] at htexts
  refine ⟨other, hother, ?_⟩
  rw [htexts, List.forall₂_map_right_iff, List.forall₂_same]
  exact fun source _ => ⟨rfl, fun steps h => resolvesText_iff hfields h⟩

/-! ## Members -/

/-- Users that are found by their own identifier and by that of their organisation. -/
def memberSchema : String :=
  "type User @key(fields: \"id org \x7b id \x7d\") \x7b id: ID org: Org \x7d " ++
    "type Org \x7b id: ID \x7d"

/-- The key of users. -/
def memberKey : FieldSetText := ⟨"User", "id org \x7b id \x7d"⟩

/-- What the key of users selects. -/
def memberFields : FieldSet := [.mk "id" [], .mk "org" [.mk "id" []]]

theorem parse_memberKey : parse memberKey.text = .ok memberFields := by
  have hprint : memberKey.text = memberFields.print := by decide +kernel
  rw [hprint]
  exact FieldSet.parse_print (FieldSet.writable_of_levels _ (by decide) (by decide))
    (List.cons_ne_nil _ _)

/-- The fields that lead to the identifiers in the key of users. -/
def memberSteps : List (List Coordinate) :=
  [[⟨"User", "id"⟩], [⟨"User", "org"⟩], [⟨"User", "org"⟩, ⟨"Org", "id"⟩]]

theorem resolvesText_memberKey : ∃ document, parseSchema memberSchema = .ok document ∧
    document.fieldSetTexts = [memberKey] ∧ document.ResolvesText memberKey memberSteps := by
  obtain ⟨document, hdocument, htexts, hid, horg, horgId⟩ :
      ∃ document ∈ (parseSchema memberSchema).toOption,
      document.fieldSetTexts = [memberKey] ∧
      (⟨"User", "id"⟩, "ID") ∈ document.fieldTypes ∧
      (⟨"User", "org"⟩, "Org") ∈ document.fieldTypes ∧
      (⟨"Org", "id"⟩, "ID") ∈ document.fieldTypes := by
    decide +kernel
  exact ⟨document, mem_toOption.1 hdocument, htexts, memberFields, parse_memberKey,
    .cons hid .nil (.cons horg (.cons horgId .nil .nil) .nil)⟩

/-- With another name for the identifier of users, their key goes on to resolve. -/
theorem fieldSets_resolve_members :
    let renames : List FieldRename := [⟨"User", "id", "userId"⟩]
    ∃ renamed other, applyToSchema renames memberSchema = .ok renamed ∧
      parseSchema renamed = .ok other ∧
      other.ResolvesText ⟨"User", "userId org \x7b id \x7d"⟩
        [[⟨"User", "userId"⟩], [⟨"User", "org"⟩], [⟨"User", "org"⟩, ⟨"Org", "id"⟩]] := by
  intro renames
  obtain ⟨renamed, hrenamed, hreads, htext⟩ :
      ∃ renamed ∈ (applyToSchema renames memberSchema).toOption,
      (∀ printed ∈ (RenameCall.fields renames).printed? memberSchema,
        printed.ReadsBackAs fieldsAndTexts) ∧
      ∀ other ∈ (parseSchema renamed).toOption,
        other.fieldSetTexts = [⟨"User", "userId org \x7b id \x7d"⟩] := by
    decide +kernel
  obtain ⟨document, hdocument, htexts, hresolves⟩ := resolvesText_memberKey
  obtain ⟨other, hother, hall⟩ := fieldSets_resolve_iff renames memberSchema renamed document
    hdocument (mem_toOption.1 hrenamed) hreads
  rw [htexts, htext other (mem_toOption.2 hother)] at hall
  obtain ⟨-, hkey⟩ := (List.forall₂_cons.1 hall).1
  refine ⟨renamed, other, mem_toOption.1 hrenamed, hother, (hkey _ hresolves).2 ?_⟩
  unfold KeepsBelow
  decide

/-- With another name for the identifier of organisations, the key of users stays as it is and
resolves no more. -/
theorem renamed_identifier_breaks_key : ∃ document renamed other,
    parseSchema memberSchema = .ok document ∧ document.fieldSetTexts = [memberKey] ∧
    document.ResolvesText memberKey memberSteps ∧
    applyToSchema [⟨"Org", "id", "orgId"⟩] memberSchema = .ok renamed ∧
    parseSchema renamed = .ok other ∧ other.fieldSetTexts = [memberKey] ∧
    ∀ steps, ¬ other.ResolvesText memberKey steps := by
  obtain ⟨renamed, hrenamed, other, hother, hkept, hfields⟩ :
      ∃ renamed ∈ (applyToSchema [⟨"Org", "id", "orgId"⟩] memberSchema).toOption,
      ∃ other ∈ (parseSchema renamed).toOption, other.fieldSetTexts = [memberKey] ∧
      ∀ x ∈ other.fieldTypes,
        (x.1 = ⟨"User", "org"⟩ → x.2 = "Org") ∧ x.1 ≠ ⟨"Org", "id"⟩ := by
    decide +kernel
  obtain ⟨document, hdocument, htexts, hresolves⟩ := resolvesText_memberKey
  refine ⟨document, renamed, other, hdocument, htexts, hresolves, mem_toOption.1 hrenamed,
    mem_toOption.1 hother, hkept, ?_⟩
  rintro steps ⟨fields, hread, hbroken⟩
  obtain rfl := Except.ok.inj (parse_memberKey.symm.trans hread)
  obtain _ | ⟨-, -, _ | ⟨horg, _ | ⟨hid, -, -⟩, -⟩⟩ := hbroken
  obtain rfl := (hfields _ horg).1 rfl
  exact (hfields _ hid).2 rfl

end FieldRename

end Supergraph
