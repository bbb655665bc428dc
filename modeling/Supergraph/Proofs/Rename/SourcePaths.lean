import Supergraph.Proofs.Consistency.Renames

/-!
# Renames and source paths

The value of an argument can be found at a path in the object that holds the field. The first step
of such a path is a field of the object's type, the next one a field of the type that this field
returns, and so on: `Document.Leads` follows a path through the fields of a document.

**Theorem (`sourcePathsFollow_iff`).** When fields are renamed, the source paths of a composite lead
through the same fields under their new names exactly if every step gets the name that it would get
as a field of the type at the start of its path.

This is a condition because renames reach all steps of a path as if they were fields of that type.
Paths of one step satisfy it, whatever the renames are. The last section shows a path of two steps
that leads nowhere after the renames (`renamed_author_breaks_path`).
-/

namespace Supergraph

/-! ## Paths in a document -/

namespace Document

/-- The fields that a document declares, each with the type of the objects that it returns. -/
def fieldTypes (document : Document) : List (Coordinate × String) :=
  document.occurrences.map fun o => (o.coordinate, o.field.type.inner)

/-- Starting at objects of a type, a path leads through the fields `steps`. -/
inductive Leads (document : Document) : String → List String → List Coordinate → Prop
  | nil {typeName : String} : Leads document typeName [] []
  | cons {typeName name returned : String} {path : List String} {steps : List Coordinate}
      (hfield : (⟨typeName, name⟩, returned) ∈ document.fieldTypes)
      (hrest : Leads document returned path steps) :
      Leads document typeName (name :: path) (⟨typeName, name⟩ :: steps)

namespace Leads

variable {document : Document} {typeName : String} {path : List String} {steps : List Coordinate}

/-- A path consists of the names of its steps. -/
theorem path_eq (h : document.Leads typeName path steps) : path = steps.map (·.fieldName) := by
  induction h with
  | nil => rfl
  | cons _ _ ih => rw [List.map_cons, ← ih]

theorem declared (h : document.Leads typeName path steps) :
    ∀ step ∈ steps, ∃ returned, (step, returned) ∈ document.fieldTypes := by
  induction h with
  | nil => exact fun _ hstep => absurd hstep List.not_mem_nil
  | cons hfield _ ih => exact List.forall_mem_cons.2 ⟨⟨_, hfield⟩, ih⟩

/-- Only the first step is sure to be a field of the type at the start. -/
theorem typeName_eq_of_length_le_one (h : document.Leads typeName path steps)
    (hshort : path.length ≤ 1) : ∀ step ∈ steps, step.typeName = typeName := by
  cases h with
  | nil => exact fun _ hstep => absurd hstep List.not_mem_nil
  | cons _ hrest =>
    obtain rfl := List.length_eq_zero_iff.1 (Nat.le_zero.1 (Nat.le_of_succ_le_succ hshort))
    cases hrest
    exact fun _ hstep => List.mem_singleton.1 hstep ▸ rfl

end Leads

end Document

/-! ## Renamed paths -/

namespace FieldRename

variable {renames : List FieldRename} {document other : Document}

theorem fieldTypes_of_applyUnlessEmpty {changed : Document}
    (h : applyUnlessEmpty renames document = .ok changed) :
    changed.fieldTypes = document.fieldTypes.map (Prod.map (newNames renames).coordinate id) := by
  rw [Document.fieldTypes, Document.fieldTypes, List.map_map]
  refine map_eq_of_forall₂ (forall₂_keepsType h) fun o _ renamed hr => ?_
  rw [hr.coordinate, hr.type]
  rfl

section Paths

variable
  (hother : other.fieldTypes = document.fieldTypes.map (Prod.map (newNames renames).coordinate id))
  {typeName : String} {path : List String} {steps : List Coordinate}
  (h : document.Leads typeName path steps)

include hother h

/-- The path that gives every step its own new name leads through the renamed fields. -/
theorem leads_newNames :
    other.Leads typeName (steps.map fun step => apply renames step.typeName step.fieldName)
      (steps.map (newNames renames).coordinate) := by
  induction h with
  | nil => exact .nil
  | @cons typeName name returned path steps hfield _ ih =>
    have hrenamed : (⟨typeName, apply renames typeName name⟩, returned) ∈ other.fieldTypes := by
      rw [hother]
      exact List.mem_map_of_mem (f := Prod.map (newNames renames).coordinate id) hfield
    exact .cons hrenamed ih

/-- Renaming all steps as fields of the first type gives this path only if it makes no difference.
-/
theorem leads_apply_iff :
    other.Leads typeName (path.map (apply renames typeName))
        (steps.map (newNames renames).coordinate) ↔
      ∀ step ∈ steps,
        apply renames typeName step.fieldName = apply renames step.typeName step.fieldName := by
  have hpath := h.path_eq
  have hown := leads_newNames hother h
  constructor
  · intro hleads
    -- Both paths lead through the same fields, so they spell the same names.
    have hsame := hleads.path_eq.trans hown.path_eq.symm
    rw [hpath, List.map_map] at hsame
    exact List.map_inj_left.1 hsame
  · intro hsame
    rw [hpath, List.map_map]
    exact (List.map_congr_left hsame).symm ▸ hown

end Paths

end FieldRename

/-! ## Source paths -/

/-- A source path, and the type of the objects that it starts at. -/
structure SourcePath where
  typeName : String
  path : List String
deriving DecidableEq, Repr

/-- The source paths of the arguments that are found in objects. -/
def FieldConfig.sourcePaths (config : FieldConfig) : List SourcePath :=
  (config.arguments.filter (·.source = .objectField)).map fun argument =>
    ⟨config.typeName, argument.sourcePath⟩

namespace Composite

variable {α : Type}

/-- The source paths in the order of the field configurations. -/
def sourcePaths (composite : Composite α) : List SourcePath :=
  composite.fields.flatMap (·.sourcePaths)

/-- Whether every source path of `composite` that leads through fields of its schema has become a
path of `renamed` that leads through the same fields under their new names. -/
def SourcePathsFollow (renames : List FieldRename) (composite renamed : Composite α) : Prop :=
  ∀ document, parseSchema composite.schema = .ok document →
    ∃ other, parseSchema renamed.schema = .ok other ∧
      List.Forall₂ (fun source target => ∀ steps, document.Leads source.typeName source.path steps →
          other.Leads target.typeName target.path
            (steps.map (FieldRename.newNames renames).coordinate))
        composite.sourcePaths renamed.sourcePaths

end Composite

namespace FieldRename

variable {α : Type}

theorem source_applyToArgumentConfig (renames : List FieldRename) (typeName : String)
    (argument : ArgumentConfig) :
    (applyToArgumentConfig renames typeName argument).source = argument.source := by
  unfold applyToArgumentConfig
  split <;> rfl

/-- All steps are renamed as fields of the type that a path starts at. -/
theorem sourcePaths_applyToFieldConfig (renames : List FieldRename) (config : FieldConfig) :
    (applyToFieldConfig renames config).sourcePaths = config.sourcePaths.map fun source =>
      { source with path := source.path.map (apply renames source.typeName) } := by
  have htype : (applyToFieldConfig renames config).typeName = config.typeName := by
    unfold applyToFieldConfig
    split <;> rfl
  have harguments : (applyToFieldConfig renames config).arguments =
      config.arguments.map (applyToArgumentConfig renames config.typeName) := by
    unfold applyToFieldConfig
    split <;> rfl
  rw [FieldConfig.sourcePaths, htype, harguments, List.filter_map, List.map_map,
    FieldConfig.sourcePaths, List.map_map]
  simp only [Function.comp_def, source_applyToArgumentConfig]
  refine List.map_congr_left fun argument hargument => ?_
  have hsource : argument.source = .objectField := of_decide_eq_true (List.mem_filter.1 hargument).2
  rw [applyToArgumentConfig, hsource]

theorem sourcePaths_renameFields {composite renamed : Composite α} {renames : List FieldRename}
    (happly : composite.renameFields renames = .ok renamed) :
    renamed.sourcePaths = composite.sourcePaths.map fun source =>
      { source with path := source.path.map (apply renames source.typeName) } := by
  obtain ⟨schema, -, hrenamed⟩ := bind_eq_ok.1 happly
  obtain rfl := Except.ok.inj hrenamed
  rw [Composite.sourcePaths, Composite.sourcePaths, applyToFieldConfigs, List.flatMap_map,
    List.map_flatMap]
  exact List.flatMap_congr fun config _ => sourcePaths_applyToFieldConfig renames config

/-- The schema of the renamed composite declares the renamed fields, with the types they had. -/
theorem fieldTypes_of_renameFields {composite renamed : Composite α} {renames : List FieldRename}
    {document : Document} (hdocument : parseSchema composite.schema = .ok document)
    (happly : composite.renameFields renames = .ok renamed)
    (hreads : ∀ printed ∈ (RenameCall.fields renames).printed? composite.schema,
      printed.ReadsBackAs Document.fieldTypes) :
    ∃ other, parseSchema renamed.schema = .ok other ∧
      other.fieldTypes = document.fieldTypes.map (Prod.map (newNames renames).coordinate id) := by
  obtain ⟨schema, hschema, hrenamed⟩ := bind_eq_ok.1 happly
  obtain rfl := Except.ok.inj hrenamed
  obtain ⟨changed, other, hchanged, hother, htypes⟩ :=
    view_of_applyToSchema hdocument hschema hreads
  exact ⟨other, hother, htypes.trans (fieldTypes_of_applyUnlessEmpty hchanged)⟩

/-- **Source paths follow renames** exactly if each of their steps gets the same name as a field of
its own type and as one of the type at the start. All of them do if none has more than one step. -/
theorem sourcePathsFollow_iff (composite renamed : Composite α) (renames : List FieldRename)
    (document : Document) (hdocument : parseSchema composite.schema = .ok document)
    (happly : composite.renameFields renames = .ok renamed)
    (hreads : ∀ printed ∈ (RenameCall.fields renames).printed? composite.schema,
      printed.ReadsBackAs Document.fieldTypes) :
    (composite.SourcePathsFollow renames renamed ↔
      ∀ source ∈ composite.sourcePaths, ∀ steps,
        document.Leads source.typeName source.path steps → ∀ step ∈ steps,
          apply renames source.typeName step.fieldName =
            apply renames step.typeName step.fieldName) ∧
    ((∀ source ∈ composite.sourcePaths, source.path.length ≤ 1) →
      composite.SourcePathsFollow renames renamed) := by
  obtain ⟨other, hother, hfields⟩ := fieldTypes_of_renameFields hdocument happly hreads
  -- All steps of a path are renamed as fields of the type at its start.
  have hrows : List.Forall₂ (fun source target => ∀ steps,
        document.Leads source.typeName source.path steps → other.Leads target.typeName target.path
          (steps.map (newNames renames).coordinate)) composite.sourcePaths renamed.sourcePaths ↔
      ∀ source ∈ composite.sourcePaths, ∀ steps,
        document.Leads source.typeName source.path steps →
          other.Leads source.typeName (source.path.map (apply renames source.typeName))
            (steps.map (newNames renames).coordinate) := by
    rw [sourcePaths_renameFields happly, List.forall₂_map_right_iff, List.forall₂_same]
  have hsteps := fun (source : SourcePath) steps
      (h : document.Leads source.typeName source.path steps) => leads_apply_iff hfields h
  have hiff : composite.SourcePathsFollow renames renamed ↔
      ∀ source ∈ composite.sourcePaths, ∀ steps,
        document.Leads source.typeName source.path steps → ∀ step ∈ steps,
          apply renames source.typeName step.fieldName =
            apply renames step.typeName step.fieldName := by
    constructor
    · intro hfollow source hsource steps h
      obtain ⟨read, hread, hfollow⟩ := hfollow document hdocument
      obtain rfl := Except.ok.inj (hother.symm.trans hread)
      exact (hsteps source steps h).1 (hrows.1 hfollow source hsource steps h)
    · intro hsame read hread
      obtain rfl := Except.ok.inj (hdocument.symm.trans hread)
      exact ⟨other, hother, hrows.2 fun source hsource steps h =>
        (hsteps source steps h).2 (hsame source hsource steps h)⟩
  refine ⟨hiff, fun hshort => hiff.2 fun source hsource steps h step hstep => ?_⟩
  rw [h.typeName_eq_of_length_le_one (hshort source hsource) step hstep]

/-! ## Posts -/

/-- Posts that are found by the identifier of their author. -/
def posts : Composite RestPayload :=
  .make
    ("type Query\x7bpost:Post\x7dtype User\x7bid:ID\x7d" ++
      "type Post\x7bid:ID author:User similar(by:ID):[Post]\x7d")
    [⟨none, .rest, [⟨"Query", ["post"]⟩],
      [⟨"User", ["id"]⟩, ⟨"Post", ["id", "author", "similar"]⟩], .blank, [], 0⟩]
    [{ FieldConfig.blank ⟨"Post", "similar"⟩ with
      arguments := [.objectField "by" ["author", "id"]] }] [] []

/-- If posts and users get the same name for their identifiers, the path follows. -/
theorem sourcePathsFollow_posts :
    let renames : List FieldRename :=
      [⟨"Post", "author", "writer"⟩, ⟨"Post", "id", "key"⟩, ⟨"User", "id", "key"⟩]
    ∃ renamed, posts.renameFields renames = .ok renamed ∧
      renamed.sourcePaths = [⟨"Post", ["writer", "key"]⟩] ∧
      posts.SourcePathsFollow renames renamed := by
  intro renames
  obtain ⟨renamed, hrenamed, hpaths, hreads, document, hdocument, hsame⟩ :
      ∃ renamed ∈ (posts.renameFields renames).toOption,
      renamed.sourcePaths = [⟨"Post", ["writer", "key"]⟩] ∧
      (∀ printed ∈ (RenameCall.fields renames).printed? posts.schema,
        printed.ReadsBackAs Document.fieldTypes) ∧
      ∃ document ∈ (parseSchema posts.schema).toOption,
      ∀ source ∈ posts.sourcePaths, ∀ x ∈ document.fieldTypes,
        apply renames source.typeName x.1.fieldName =
          apply renames x.1.typeName x.1.fieldName := by
    decide +kernel
  refine ⟨renamed, mem_toOption.1 hrenamed, hpaths, ?_⟩
  refine (sourcePathsFollow_iff posts renamed renames document (mem_toOption.1 hdocument)
    (mem_toOption.1 hrenamed) hreads).1.2 fun source hsource steps h step hstep => ?_
  obtain ⟨returned, hdeclared⟩ := h.declared step hstep
  exact hsame source hsource _ hdeclared

/-- If they get different names, the path looks for the post's new name in its author. -/
theorem renamed_author_breaks_path :
    let renames : List FieldRename := [⟨"Post", "id", "postId"⟩, ⟨"User", "id", "userId"⟩]
    ∃ renamed document other, posts.renameFields renames = .ok renamed ∧
      parseSchema posts.schema = .ok document ∧ parseSchema renamed.schema = .ok other ∧
      posts.sourcePaths = [⟨"Post", ["author", "id"]⟩] ∧
      document.Leads "Post" ["author", "id"] [⟨"Post", "author"⟩, ⟨"User", "id"⟩] ∧
      renamed.sourcePaths = [⟨"Post", ["author", "postId"]⟩] ∧
      (∀ steps, ¬ other.Leads "Post" ["author", "postId"] steps) ∧
      ¬ posts.SourcePathsFollow renames renamed := by
  intro renames
  obtain ⟨renamed, hrenamed, hpaths, document, hdocument, hauthor, hid, other, hother, hfields⟩ :
      ∃ renamed ∈ (posts.renameFields renames).toOption,
      renamed.sourcePaths = [⟨"Post", ["author", "postId"]⟩] ∧
      ∃ document ∈ (parseSchema posts.schema).toOption,
      (⟨"Post", "author"⟩, "User") ∈ document.fieldTypes ∧
      (⟨"User", "id"⟩, "ID") ∈ document.fieldTypes ∧
      ∃ other ∈ (parseSchema renamed.schema).toOption, ∀ x ∈ other.fieldTypes,
        (x.1 = ⟨"Post", "author"⟩ → x.2 = "User") ∧ x.1 ≠ ⟨"User", "postId"⟩ := by
    decide +kernel
  have hleads : document.Leads "Post" ["author", "id"] [⟨"Post", "author"⟩, ⟨"User", "id"⟩] :=
    .cons hauthor (.cons hid .nil)
  have hnowhere : ∀ steps, ¬ other.Leads "Post" ["author", "postId"] steps := by
    -- The first step leads to the author, who has no field of that name.
    rintro _ (_ | ⟨hfirst, _ | ⟨hsecond, -⟩⟩)
    obtain rfl := (hfields _ hfirst).1 rfl
    exact (hfields _ hsecond).2 rfl
  refine ⟨renamed, document, other, mem_toOption.1 hrenamed, mem_toOption.1 hdocument,
    mem_toOption.1 hother, rfl, hleads, hpaths, hnowhere, fun hfollow => ?_⟩
  obtain ⟨read, hread, hrows⟩ := hfollow document (mem_toOption.1 hdocument)
  obtain rfl := Except.ok.inj ((mem_toOption.1 hother).symm.trans hread)
  rw [hpaths] at hrows
  cases hrows with
  | cons hpath _ => exact hnowhere _ (hpath _ hleads)

end FieldRename

end Supergraph
