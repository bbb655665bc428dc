import Supergraph.FieldSet
import Supergraph.Proofs.Query.Selections

/-!
# Field sets read back

**Theorem (`parse_print_iff`).** A field set is read back from its printed form exactly if it is not
empty, its names are names of the language and it does not nest too deep. What is read from any text
is read back, unless it selects nothing.

Both are inductions that follow the braces, on `Writable`. Printing is divided in two: the printed
text consists of certain tokens (`splits_print`), and these are the tokens of selections without
labels, arguments and directives (`selections_of_tokens`). What is read from any text can be written
(`writable_of_parse`).
-/

namespace Supergraph

/-- Field sets that can be written where `depth` levels of braces are free, counting the braces
around them, with names of the language. -/
inductive FieldSet.Writable : Nat → FieldSet → Prop
  | nil {depth : Nat} : Writable depth []
  | cons {depth : Nat} {name : String} {nested rest : FieldSet} (hname : Lexer.isName name.toList)
      (hnested : Writable depth nested) (hrest : Writable (depth + 1) rest) :
      Writable (depth + 1) (.mk name nested :: rest)

mutual

/-- The tokens of a printed field set. -/
def FieldSet.tokens : FieldSet → List Token
  | [] => []
  | field :: rest => field.tokens ++ FieldSet.tokens rest

def SelectedField.tokens : SelectedField → List Token
  | .mk name [] => [.name name]
  | .mk name nested =>
    .name name :: .sign .openBrace :: (FieldSet.tokens nested ++ [.sign .closeBrace])

end

mutual

/-- What a printed field set is read as. -/
def FieldSet.selections : FieldSet → List Selection
  | [] => []
  | field :: rest => field.selection :: FieldSet.selections rest

def SelectedField.selection : SelectedField → Selection
  | .mk name nested => .field none name [] [] (FieldSet.selections nested)

end

namespace FieldSet

open Supergraph.Lexer Supergraph.Parser Supergraph.Query

/-! ## Printing and splitting -/

theorem endsNames_of_head {c : Char} (hc : isNameRest c = false) (text : List Char) :
    EndsNames (c :: text) := by
  intro d hd
  obtain rfl := Option.some.inj hd
  exact hc

theorem splits_print {depth : Nat} {fields : FieldSet} (h : Writable depth fields)
    {text : List Char} {ts : List Token} (hends : EndsNames text) (htext : Splits text ts) :
    Splits ((print fields).toList ++ text) (tokens fields ++ ts) := by
  induction h generalizing text ts with
  | nil => exact htext
  | @cons depth name nested rest hname _ _ ihnested ihrest =>
    have hfield : ∀ {text ts}, EndsNames text → Splits text ts →
        Splits ((printField (.mk name nested)).toList ++ text)
          (SelectedField.tokens (.mk name nested) ++ ts) := by
      intro text ts hends htext
      cases nested with
      | nil =>
        have := Splits.name hname hends htext
        simpa [printField, SelectedField.tokens] using this
      | cons first others =>
        have hclose : Splits (' ' :: '}' :: text) (.sign .closeBrace :: ts) :=
          (Splits.sign rfl htext).space
        have hinside := ihnested (endsNames_of_head (by decide) _) hclose
        have hopen := Splits.sign (c := '{') rfl hinside.space
        have := Splits.name hname (endsNames_of_head (by decide) _) hopen.space
        simpa [printField, SelectedField.tokens] using this
    -- A space is only printed between fields, so what follows the last one has to end its name.
    cases rest with
    | nil => simpa [print, tokens] using hfield hends htext
    | cons second others =>
      have hrest := ihrest hends htext
      have := hfield (endsNames_of_head (by decide) _) hrest.space
      simpa [print, tokens] using this

/-! ## Reading tokens -/

/-- The tokens of a field set are those of selections. -/
theorem selections_of_tokens {depth : Nat} {fields : FieldSet} (h : Writable (depth + 1) fields) :
    Phrase.selections depth (tokens fields) (selections fields) := by
  generalize hlevels : depth + 1 = levels at h
  induction h generalizing depth with
  | nil => exact .nil
  | @cons levels name nested others hname hnested _ ihnested ihothers =>
    obtain rfl := Nat.succ.inj hlevels
    have hfield : ∀ ts, (Phrase.selectionSet depth).Optional ts (selections nested) →
        Phrase.OneSelection depth (Phrase.selectionSet depth) (.name name :: ts)
          (SelectedField.selection (.mk name nested)) :=
      fun ts h => .field none name .absent .nil h
    refine .cons ?_ (ihothers rfl)
    cases nested with
    | nil => exact hfield [] .absent
    | cons first rest =>
      -- Something is selected below, so a level of braces is left for it.
      obtain ⟨levels, rfl⟩ : ∃ levels, depth = levels + 1 := by
        cases hnested
        exact ⟨_, rfl⟩
      exact hfield _ (.present ⟨.mk (ihnested rfl), List.cons_ne_nil _ _⟩)

theorem selectedFields_selections {depth : Nat} {fields : FieldSet} (h : Writable depth fields) :
    Selection.selectedFields (selections fields) = fields := by
  induction h with
  | nil => rfl
  | cons _ _ _ ihnested ihrest =>
    simp [selections, SelectedField.selection, Selection.selectedFields, Selection.selectedField?,
      ihnested, ihrest]

/-- A printed field set is read as its selections. -/
theorem leadingSelections_print {fields : FieldSet} (h : Writable nestingLimit fields)
    (hne : fields ≠ []) :
    leadingSelections.runOn (braced (print fields)) = .ok (selections fields) := by
  have hsplits : Splits (braced (print fields)).toList
      (.sign .openBrace :: (tokens fields ++ [.sign .closeBrace])) := by
    have hclose : Splits [' ', '}'] [.sign .closeBrace] := (Splits.sign rfl (.nil rfl)).space
    have hinside := splits_print h (endsNames_of_head (by decide) _) hclose
    have := Splits.sign (c := '{') rfl hinside.space
    simpa [braced] using this
  have hselections : selections fields ≠ [] := by
    obtain ⟨field, rest, rfl⟩ := List.exists_cons_of_ne_nil hne
    exact List.cons_ne_nil _ _
  refine runOn_eq_ok_iff.2 ⟨_, hsplits, leadingSelections_eq_ok_iff.2 ?_⟩
  exact ⟨_, [], (List.append_nil _).symm, ⟨.mk (selections_of_tokens h), hselections⟩, [], rfl⟩

/-- **Field sets read back.** -/
theorem parse_print {fields : FieldSet} (h : Writable nestingLimit fields) (hne : fields ≠ []) :
    parse (print fields) = .ok fields := by
  unfold parse
  rw [leadingSelections_print h hne]
  exact congrArg Except.ok (selectedFields_selections h)

/-! ## What is read from any text -/

/-- What is selected can be written where it was written, if all names are proper. -/
theorem writable_selectedFields {depth : Nat} {ts : List Token} {selections : List Selection}
    (h : Phrase.selectionSet depth ts selections) (hts : ∀ t ∈ ts, t.IsProper) :
    Writable depth (Selection.selectedFields selections) := by
  induction depth generalizing ts selections with
  | zero => exact h.elim
  | succ depth ih =>
    obtain ⟨⟨hrow⟩, -⟩ := h
    rename_i ts
    have hts : ∀ t ∈ ts, t.IsProper := fun t ht => hts t (by simp [ht])
    clear * - ih hrow hts
    induction hrow with
    | nil => exact .nil
    | @cons front back selection others first _ ihothers =>
      obtain ⟨hfront, hback⟩ := List.forall_mem_append.1 hts
      cases first with
      | spread | fragment => exact ihothers hback
      | @field ats dts sts as ds nested label name harguments hdirectives hnested =>
        have hname : isName name.toList := hfront (.name name) (by simp)
        refine .cons hname ?_ (ihothers hback)
        cases hnested with
        | absent => exact .nil
        | present hnested => exact ih hnested fun t ht => hfront t (by simp [ht])

theorem parse_eq_ok {text : String} {fields : FieldSet} :
    parse text = .ok fields ↔ ∃ selections,
      leadingSelections.runOn (braced text) = .ok selections ∧
        Selection.selectedFields selections = fields := by
  unfold parse
  cases leadingSelections.runOn (braced text) <;> simp

/-- What is read from a text can be written. -/
theorem writable_of_parse {text : String} {fields : FieldSet} (h : parse text = .ok fields) :
    Writable nestingLimit fields := by
  obtain ⟨selections, hread, rfl⟩ := parse_eq_ok.1 h
  obtain ⟨ts, hsplits, hleading⟩ := runOn_eq_ok_iff.1 hread
  obtain ⟨us, rest, rfl, hselections, -⟩ := leadingSelections_eq_ok_iff.1 hleading
  exact writable_selectedFields hselections (List.forall_mem_append.1 hsplits.isProper).1

end FieldSet

/-! ## Levels and names -/

mutual

/-- The levels of braces in a printed field set, the braces around it counted. -/
def FieldSet.levels : FieldSet → Nat
  | [] => 0
  | field :: rest => max field.levels (FieldSet.levels rest)

def SelectedField.levels : SelectedField → Nat
  | .mk _ nested => FieldSet.levels nested + 1

end

mutual

/-- All names in a field set, at every level. -/
def FieldSet.allNames : FieldSet → List String
  | [] => []
  | field :: rest => field.allNames ++ FieldSet.allNames rest

def SelectedField.allNames : SelectedField → List String
  | .mk name nested => name :: FieldSet.allNames nested

end

namespace FieldSet

open Supergraph.Lexer Supergraph.Parser

theorem writable_of_levels (fields : FieldSet) {depth : Nat} (hlevels : levels fields ≤ depth)
    (hnames : ∀ name ∈ allNames fields, isName name.toList) : Writable depth fields := by
  match fields with
  | [] => exact .nil
  | .mk name nested :: rest =>
    simp only [levels, SelectedField.levels, Nat.max_le] at hlevels
    simp only [allNames, SelectedField.allNames, List.cons_append, List.forall_mem_cons,
      List.forall_mem_append] at hnames
    obtain ⟨depth, rfl⟩ : ∃ d, depth = d + 1 :=
      Nat.exists_eq_add_one_of_ne_zero (Nat.ne_of_gt (Nat.zero_lt_of_lt hlevels.1))
    exact .cons hnames.1 (writable_of_levels nested (Nat.le_of_succ_le_succ hlevels.1) hnames.2.1)
      (writable_of_levels rest hlevels.2 hnames.2.2)

/-- What can be written is a matter of levels and names. -/
theorem writable_iff {depth : Nat} {fields : FieldSet} :
    Writable depth fields ↔
      levels fields ≤ depth ∧ ∀ name ∈ allNames fields, isName name.toList := by
  refine ⟨fun h => ?_, fun ⟨hlevels, hnames⟩ => writable_of_levels fields hlevels hnames⟩
  induction h with
  | nil => exact ⟨Nat.zero_le _, List.forall_mem_nil _⟩
  | cons hname _ _ ihnested ihrest =>
    simp only [levels, SelectedField.levels, allNames, SelectedField.allNames, List.cons_append,
      List.forall_mem_cons, List.forall_mem_append, Nat.max_le]
    exact ⟨⟨Nat.succ_le_succ ihnested.1, ihrest.1⟩, hname, ihnested.2, ihrest.2⟩

/-- **Printing and reading are inverse** where something is selected: exactly the field sets of
names of the language that do not nest too deep are read back, and so is whatever was read before.
-/
theorem parse_print_iff :
    (∀ fields, parse (print fields) = .ok fields ↔ fields ≠ [] ∧
      levels fields ≤ nestingLimit ∧ ∀ name ∈ allNames fields, isName name.toList) ∧
    ∀ text fields, parse text = .ok fields → (parse (print fields) = .ok fields ↔ fields ≠ []) := by
  have hempty : parse (print []) ≠ .ok [] := by
    intro h
    have hfails : (parse (print [])).isOk = false := by decide +kernel
    rw [h] at hfails
    cases hfails
  have hne : ∀ {fields}, parse (print fields) = .ok fields → fields ≠ [] := by
    rintro fields h rfl
    exact hempty h
  refine ⟨fun fields => ⟨fun h => ⟨hne h, writable_iff.1 (writable_of_parse h)⟩, ?_⟩,
    fun text fields h => ⟨hne, parse_print (writable_of_parse h)⟩⟩
  exact fun ⟨hselects, hwritable⟩ => parse_print (writable_iff.2 hwritable) hselects

theorem parse_print_iff_products : ∃ fields,
    parse "id ...more sku(of: 1) { upc vendor { id } }" = .ok fields ∧
      print fields = "id sku { upc vendor { id } }" ∧ parse (print fields) = .ok fields := by
  obtain ⟨fields, hread, hprint, hne⟩ :
      ∃ fields ∈ (parse "id ...more sku(of: 1) { upc vendor { id } }").toOption,
        print fields = "id sku { upc vendor { id } }" ∧ fields.isEmpty = false := by
    decide +kernel
  have hread := mem_toOption.1 hread
  exact ⟨fields, hread, hprint,
    (parse_print_iff.2 _ fields hread).2 (List.isEmpty_eq_false_iff.1 hne)⟩

end FieldSet

end Supergraph
