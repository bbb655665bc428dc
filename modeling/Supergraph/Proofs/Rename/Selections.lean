import Supergraph.Proofs.Rename.FieldSets

/-!
# Selections in renamed field sets

A field set keeps less than the selections it was read from: fragments, labels, arguments and
directives are gone (`Selection.bare`). This matters once a field set is printed again, which
happens when one of its top-level fields is renamed.

**Theorem (`selections_renamed`).** A text in which nothing is renamed stays as it is. Any other one
becomes a text of its bare selections, with the new names at the top level. So all of its selections
are kept exactly if nothing is renamed or they were bare before.
-/

namespace Supergraph

mutual

/-- A field selection without label, arguments and directives. -/
def Selection.bare? : Selection → Option Selection
  | .field _ name _ _ selections => some (.field none name [] [] (Selection.bare selections))
  | .spread _ _ => none
  | .fragment _ _ _ => none

/-- The field selections, at every level, without labels, arguments and directives. -/
def Selection.bare : List Selection → List Selection
  | [] => []
  | selection :: rest =>
    match selection.bare? with
    | some kept => kept :: Selection.bare rest
    | none => Selection.bare rest

end

/-- A selection with another name for the selected field. -/
def Selection.mapName (f : String → String) : Selection → Selection
  | .field label name arguments directives selections =>
    .field label (f name) arguments directives selections
  | .spread name directives => .spread name directives
  | .fragment type directives selections => .fragment type directives selections

/-! ## Bare selections -/

/-- A field set is written in bare selections. -/
theorem FieldSet.selections_selectedFields (selections : List Selection) :
    FieldSet.selections (Selection.selectedFields selections) = Selection.bare selections := by
  match selections with
  | [] => rfl
  | .field _ _ _ _ nested :: rest =>
    simp only [Selection.selectedFields, Selection.selectedField?, FieldSet.selections,
      SelectedField.selection, Selection.bare, Selection.bare?, selections_selectedFields nested,
      selections_selectedFields rest]
  | .spread _ _ :: rest | .fragment _ _ _ :: rest =>
    simp only [Selection.selectedFields, Selection.selectedField?, Selection.bare, Selection.bare?,
      selections_selectedFields rest]

theorem Selection.length_bare_le (selections : List Selection) :
    (bare selections).length ≤ selections.length := by
  induction selections with
  | nil => exact le_rfl
  | cons selection rest ih =>
    cases selection <;> simp only [bare, bare?, List.length_cons] <;> omega

/-- Other names at the top level do not make up for what is lost. -/
theorem Selection.map_mapName_bare_iff {f : String → String} {selections : List Selection} :
    (bare selections).map (mapName f) = selections.map (mapName f) ↔
      bare selections = selections := by
  refine ⟨fun h => ?_, fun h => by rw [h]⟩
  have hlength := length_bare_le
  induction selections with
  | nil => rfl
  | cons selection rest ih =>
    cases selection with
    | field label name arguments directives nested =>
      simp only [bare, bare?, List.map_cons, List.cons.injEq, mapName, Selection.field.injEq] at h ⊢
      obtain ⟨⟨hlabel, -, hrest⟩, hothers⟩ := h
      exact ⟨⟨hlabel, trivial, hrest⟩, ih hothers⟩
    | spread | fragment =>
      -- A fragment is missed, so there are not enough selections left.
      have hcount := congrArg List.length h
      have := hlength rest
      simp only [bare, bare?, List.length_map, List.length_cons] at hcount
      omega

namespace FieldRename

open Supergraph.FieldSet Supergraph.Parser Supergraph.Query

variable {renames : List FieldRename} {typeName text : String}

/-! ## Renames -/

/-- One of the fields at the top level is renamed. -/
def RenamesSome (renames : List FieldRename) (typeName : String) (fields : FieldSet) : Prop :=
  ∃ field ∈ fields, (find? renames typeName field.name).isSome

theorem selections_applyToFieldSet (fields : FieldSet) :
    FieldSet.selections (applyToFieldSet renames typeName fields) =
      (FieldSet.selections fields).map (Selection.mapName (apply renames typeName)) := by
  induction fields with
  | nil => rfl
  | cons field rest ih =>
    obtain ⟨name, nested⟩ := field
    rw [applyToFieldSet, List.map_cons, FieldSet.selections, FieldSet.selections, List.map_cons,
      ← ih]
    rfl

theorem renamesSome_iff {fields : FieldSet} : RenamesSome renames typeName fields ↔
    fields.any fun field => (find? renames typeName field.name).isSome :=
  List.any_eq_true.symm

theorem map_mapName_eq_self {selections : List Selection}
    (h : ¬ RenamesSome renames typeName (Selection.selectedFields selections)) :
    selections.map (Selection.mapName (apply renames typeName)) = selections := by
  induction selections with
  | nil => rfl
  | cons selection rest ih =>
    cases selection with
    | field label name arguments directives nested =>
      rw [Selection.selectedFields, Selection.selectedField?] at h
      have hname : find? renames typeName name = none :=
        Option.not_isSome_iff_eq_none.1 fun hsome => h ⟨_, List.mem_cons_self, hsome⟩
      have hrest := ih <| mt (Exists.imp fun _ => And.imp_left (List.mem_cons_of_mem _)) h
      rw [List.map_cons, hrest, Selection.mapName, apply_of_find?_eq_none hname]
    | spread | fragment =>
      rw [List.map_cons, ih h]
      rfl

/-- **What becomes of the selections of a field set.** -/
theorem selections_renamed (hnames : ∀ r ∈ renames, Lexer.isName r.target.toList)
    {selections : List Selection}
    (hread : leadingSelections.runOn (FieldSet.braced text) = .ok selections) :
    ∃ renamed, applyToFieldSetText renames typeName text = .ok renamed ∧
      (¬ RenamesSome renames typeName (Selection.selectedFields selections) → renamed = text) ∧
      (RenamesSome renames typeName (Selection.selectedFields selections) →
        leadingSelections.runOn (FieldSet.braced renamed) =
          .ok ((Selection.bare selections).map (Selection.mapName (apply renames typeName)))) ∧
      (leadingSelections.runOn (FieldSet.braced renamed) =
          .ok (selections.map (Selection.mapName (apply renames typeName))) ↔
        RenamesSome renames typeName (Selection.selectedFields selections) →
          Selection.bare selections = selections) := by
  have hparse : parse text = .ok (Selection.selectedFields selections) :=
    parse_eq_ok.2 ⟨selections, hread, rfl⟩
  -- Only a text in which something is renamed is printed, and printing keeps just the names.
  by_cases hsome : RenamesSome renames typeName (Selection.selectedFields selections)
  · have happly : applyToFieldSetText renames typeName text =
        .ok (applyToFieldSet renames typeName (Selection.selectedFields selections)).print := by
      rw [applyToFieldSetText, hparse, ok_bind, if_pos (renamesSome_iff.1 hsome)]
      rfl
    have hne : applyToFieldSet renames typeName (Selection.selectedFields selections) ≠ [] := by
      obtain ⟨field, hfield, -⟩ := hsome
      exact List.ne_nil_of_mem (List.mem_map_of_mem hfield)
    have hwritable := writable_of_parse hparse
    have hrenamed := leadingSelections_print (writable_applyToFieldSet hwritable
      fun field hfield => isName_apply hnames (isName_of_writable hwritable field hfield)) hne
    rw [selections_applyToFieldSet, selections_selectedFields] at hrenamed
    refine ⟨_, happly, fun h => absurd hsome h, fun _ => hrenamed, ?_⟩
    rw [hrenamed, Except.ok.injEq, Selection.map_mapName_bare_iff]
    exact ⟨fun h _ => h, fun h => h hsome⟩
  · have happly : applyToFieldSetText renames typeName text = .ok text := by
      rw [applyToFieldSetText, hparse, ok_bind, if_neg (mt renamesSome_iff.2 hsome)]
      rfl
    refine ⟨text, happly, fun _ => rfl, fun h => absurd h hsome, fun _ h => absurd h hsome,
      fun _ => ?_⟩
    rw [hread, map_mapName_eq_self hsome]

/-- A new name for the first field of a key. -/
def productRenames : List FieldRename := [⟨"Product", "id", "productId"⟩]

theorem selections_renamed_products : ∃ selections renamed,
    leadingSelections.runOn (FieldSet.braced "id sku { upc }") = .ok selections ∧
    applyToFieldSetText productRenames "Product" "id sku { upc }" = .ok renamed ∧
    renamed = "productId sku { upc }" ∧
    leadingSelections.runOn (FieldSet.braced renamed) = .ok ((Selection.bare selections).map
      (Selection.mapName (apply productRenames "Product"))) := by
  obtain ⟨selections, hread, hsome⟩ :
      ∃ selections ∈ (leadingSelections.runOn (FieldSet.braced "id sku { upc }")).toOption,
        (Selection.selectedFields selections).any fun field =>
          (find? productRenames "Product" field.name).isSome := by
    decide +kernel
  have hread := mem_toOption.1 hread
  have hnames : ∀ r ∈ productRenames, Lexer.isName r.target.toList := by decide
  obtain ⟨renamed, hrenamed, -, hselections, -⟩ :=
    @selections_renamed productRenames "Product" _ hnames selections hread
  have htext : "productId sku { upc }" ∈
      (applyToFieldSetText productRenames "Product" "id sku { upc }").toOption := by
    decide +kernel
  obtain rfl := Except.ok.inj (hrenamed.symm.trans (mem_toOption.1 htext))
  exact ⟨selections, _, hread, hrenamed, rfl, hselections (renamesSome_iff.2 hsome)⟩

/-- Beside a renamed field a fragment is lost, and so are labels and arguments. -/
theorem renamed_selections_are_bare : ∃ selections renamed,
    leadingSelections.runOn (FieldSet.braced "id key: sku(of: 1) ...more") = .ok selections ∧
    applyToFieldSetText productRenames "Product" "id key: sku(of: 1) ...more" = .ok renamed ∧
    renamed = "productId sku" ∧
    leadingSelections.runOn (FieldSet.braced renamed) ≠
      .ok (selections.map (Selection.mapName (apply productRenames "Product"))) := by
  obtain ⟨selections, hread, renamed, hrenamed, htext, hlength⟩ :
      ∃ selections ∈
        (leadingSelections.runOn (FieldSet.braced "id key: sku(of: 1) ...more")).toOption,
      ∃ renamed ∈ (applyToFieldSetText productRenames "Product"
        "id key: sku(of: 1) ...more").toOption, renamed = "productId sku" ∧
      ∀ read ∈ (leadingSelections.runOn (FieldSet.braced renamed)).toOption,
        read.length ≠ selections.length := by
    decide +kernel
  refine ⟨selections, renamed, mem_toOption.1 hread, mem_toOption.1 hrenamed, htext, fun h => ?_⟩
  exact hlength _ (mem_toOption.2 h) (List.length_map _)

end FieldRename

end Supergraph
