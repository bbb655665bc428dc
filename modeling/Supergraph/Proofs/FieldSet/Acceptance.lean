import Supergraph.Proofs.FieldSet.RoundTrip
import Supergraph.Proofs.Language.Closing

/-!
# Which texts are field sets

A text is read as a field set by putting it in braces and reading a document, of which the first
definition is looked at. So three things decide whether a text is read and what it selects: its
tokens, whether it ends inside a comment, and where the brace is closed.

**What is read** (`parse_eq_ok_iff_reads`). A text is read if it is a bare selection set and does
not end inside a comment, or if it closes the added brace itself and goes on with further
definitions.

**Main result** (`parses_selections_iff`). These two kinds of texts are the only ones for which
reading differs from accepting bare selection sets.
-/

namespace Supergraph

open Supergraph.Lexer Supergraph.Parser Supergraph.Query

/-- The fields that selections list: one for each field selection, in order, with what is selected
below it. -/
inductive Selection.Lists : List Selection → FieldSet → Prop
  | nil : Lists [] []
  | field {label : Option String} {name : String} {arguments : List (String × Value)}
      {directives : List Directive} {selections rest : List Selection} {nested fields : FieldSet}
      (below : Lists selections nested) (others : Lists rest fields) :
      Lists (.field label name arguments directives selections :: rest) (.mk name nested :: fields)
  | spread {name : String} {directives : List Directive} {rest : List Selection} {fields : FieldSet}
      (others : Lists rest fields) : Lists (.spread name directives :: rest) fields
  | fragment {type : Option String} {directives : List Directive}
      {selections rest : List Selection} {fields : FieldSet} (others : Lists rest fields) :
      Lists (.fragment type directives selections :: rest) fields

theorem Selection.lists_selectedFields (selections : List Selection) :
    Lists selections (selectedFields selections) := by
  match selections with
  | [] => exact .nil
  | .field label name arguments directives nested :: rest =>
    simp only [selectedFields, selectedField?]
    exact .field (lists_selectedFields nested) (lists_selectedFields rest)
  | .spread name directives :: rest =>
    simp only [selectedFields, selectedField?]
    exact .spread (lists_selectedFields rest)
  | .fragment type directives nested :: rest =>
    simp only [selectedFields, selectedField?]
    exact .fragment (lists_selectedFields rest)

theorem Selection.lists_iff {selections : List Selection} {fields : FieldSet} :
    Lists selections fields ↔ selectedFields selections = fields := by
  refine ⟨fun h => ?_, ?_⟩
  · induction h with
    | nil => rfl
    | field _ _ ihbelow ihothers => simp [selectedFields, selectedField?, ihbelow, ihothers]
    | spread _ ih | fragment _ ih => simp [selectedFields, selectedField?, ih]
  · rintro rfl
    exact lists_selectedFields selections

namespace FieldSet

variable {text : String} {selections : List Selection}

/-! ## Texts -/

/-- The text is nothing but these selections, which leave a level of braces for the ones around it.
-/
def IsSelections (text : String) (selections : List Selection) : Prop :=
  selections ≠ [] ∧ ∃ tokens, Splits text.toList tokens ∧
    Phrase.selections (nestingLimit - 1) tokens selections

/-- The text ends inside a comment. -/
def EndsInComment (text : String) : Prop := ∃ tokens, Consists text.toList tokens true

/-- The text starts with these selections and a brace that closes what the added one opens, and goes
on with definitions. -/
def ClosesEarly (text : String) (selections : List Selection) : Prop :=
  selections ≠ [] ∧ ∃ front back inComment others,
    Consists text.toList (front ++ .sign .closeBrace :: back) inComment ∧
    Phrase.selections (nestingLimit - 1) front selections ∧
    definitions nestingLimit (back ++ closingTokens inComment).length
      (back ++ closingTokens inComment) = .ok (others, [])

/-- In braces, the tokens of selections are read as these selections. -/
theorem selectionSet_of_selections {tokens : List Token} (hne : selections ≠ [])
    (h : Phrase.selections (nestingLimit - 1) tokens selections) (rest : List Token) :
    selectionSet nestingLimit (.sign .openBrace :: (tokens ++ .sign .closeBrace :: rest)) =
      .ok (selections, rest) :=
  selectionSet_eq_ok_iff.2 ⟨.sign .openBrace :: (tokens ++ [.sign .closeBrace]), by simp,
    .mk h, hne⟩

theorem IsSelections.selectionSet_eq (h : IsSelections text selections) :
    selectionSet nestingLimit (.sign .openBrace ::
      ((scan text).tokens.map (·.1) ++ [.sign .closeBrace])) = .ok (selections, []) := by
  obtain ⟨hne, tokens, hsplits, hrow⟩ := h
  rw [(scan_of_splits hsplits).1]
  exact selectionSet_of_selections hne hrow []

/-- A bare selection set does not close the brace around it. -/
theorem not_isSelections_of_closesEarly {others : List Selection}
    (h : ClosesEarly text selections) : ¬ IsSelections text others := by
  rintro ⟨hothers, tokens, htokens, hrow⟩
  obtain ⟨hne, front, back, inComment, -, hconsists, hfront, -⟩ := h
  obtain rfl := htokens.unique hconsists.splits
  have hall := selectionSet_of_selections hothers hrow []
  have hpart := selectionSet_of_selections hne hfront (back ++ [.sign .closeBrace])
  rw [List.append_assoc, List.cons_append] at hall
  obtain ⟨-, hrest⟩ := Prod.mk.injEq .. ▸ Except.ok.inj (hall.symm.trans hpart)
  simp at hrest

/-! ## Reading -/

theorem splits_braced_iff {tokens : List Token} :
    Splits (braced text).toList tokens ↔ ∃ own inComment, Consists text.toList own inComment ∧
      tokens = .sign .openBrace :: (own ++ closingTokens inComment) := by
  have hbraced : (braced text).toList = '{' :: ' ' :: (text.toList ++ closing) := by
    simp [braced, closing]
  rw [hbraced]
  constructor
  · intro h
    cases h with
    | nil h => cases h
    | @cons _ lexeme _ htoken hrest =>
      obtain rfl : ⟨.sign .openBrace, ['{'], ' ' :: (text.toList ++ closing)⟩ = lexeme :=
        Option.some.inj htoken
      have hinside : Splits (text.toList ++ closing) _ := hrest.of_skipped (fst_skip ..)
      obtain ⟨own, inComment, hown, rfl⟩ := splits_append_closing_iff.1 hinside
      exact ⟨own, inComment, hown, rfl⟩
  · rintro ⟨own, inComment, hown, rfl⟩
    exact .sign rfl (splits_append_closing_iff.2 ⟨own, inComment, hown, rfl⟩).space

/-- A brace among the tokens of a text and the brace behind it is the last one, or the text's own.
-/
theorem eq_of_append_closingTokens {own front rest : List Token} {inComment : Bool}
    (h : own ++ closingTokens inComment = front ++ .sign .closeBrace :: rest) :
    own = front ∧ inComment = false ∧ rest = [] ∨
      ∃ back, own = front ++ .sign .closeBrace :: back ∧
        rest = back ++ closingTokens inComment := by
  rcases List.append_eq_append_iff.1 h with ⟨more, rfl, hmore⟩ | ⟨more, rfl, hmore⟩
  · cases inComment with
    | true => simp [closingTokens] at hmore
    | false =>
      obtain ⟨rfl, rfl⟩ : more = [] ∧ rest = [] := by
        cases more <;> simp_all [closingTokens]
      exact .inl ⟨(List.append_nil own).symm, rfl, rfl⟩
  · cases more with
    | nil =>
      cases inComment with
      | true => simp [closingTokens] at hmore
      | false =>
        obtain ⟨-, rfl⟩ := List.cons.injEq .. ▸ hmore
        exact .inl ⟨List.append_nil front, rfl, rfl⟩
    | cons t back =>
      obtain ⟨rfl, rfl⟩ := List.cons.injEq .. ▸ hmore
      exact .inr ⟨back, rfl, rfl⟩

theorem runOn_braced_iff : leadingSelections.runOn (braced text) = .ok selections ↔
    IsSelections text selections ∧ ¬ EndsInComment text ∨ ClosesEarly text selections := by
  constructor
  · intro h
    obtain ⟨ts, hsplits, hleading⟩ := runOn_eq_ok_iff.1 h
    obtain ⟨us, rest, hts, ⟨⟨hrow⟩, hne⟩, others, hothers⟩ := leadingSelections_eq_ok_iff.1 hleading
    rename_i front
    obtain ⟨own, inComment, hown, rfl⟩ := splits_braced_iff.1 hsplits
    have htokens : own ++ closingTokens inComment = front ++ .sign .closeBrace :: rest := by
      simpa using hts
    -- The selections end at the added brace or at one that the text has itself.
    rcases eq_of_append_closingTokens htokens with ⟨rfl, rfl, -⟩ | ⟨back, rfl, rfl⟩
    · refine .inl ⟨⟨hne, own, hown.splits, hrow⟩, ?_⟩
      rintro ⟨tokens, hcomment⟩
      exact Bool.false_ne_true (hown.unique hcomment).2
    · exact .inr ⟨hne, front, back, inComment, others, hown, hrow, hothers⟩
  · rintro (⟨⟨hne, tokens, hsplits, hrow⟩, hcomment⟩ | ⟨hne, front, back, inComment, others, hown,
      hrow, hothers⟩)
    · obtain ⟨inComment, htokens⟩ := exists_consists hsplits
      obtain rfl : inComment = false := Bool.eq_false_iff.2 fun e => hcomment ⟨tokens, e ▸ htokens⟩
      refine runOn_eq_ok_iff.2 ⟨_, splits_braced_iff.2 ⟨tokens, false, htokens, rfl⟩, ?_⟩
      exact leadingSelections_eq_ok_iff.2
        ⟨_, [], (List.append_nil _).symm, ⟨.mk hrow, hne⟩, [], rfl⟩
    · refine runOn_eq_ok_iff.2 ⟨_, splits_braced_iff.2 ⟨_, inComment, hown, rfl⟩, ?_⟩
      exact leadingSelections_eq_ok_iff.2 ⟨.sign .openBrace :: (front ++ [.sign .closeBrace]),
        back ++ closingTokens inComment, by simp, ⟨.mk hrow, hne⟩, others, hothers⟩

/-- **Which texts are read**, and as what. -/
theorem parse_eq_ok_iff_reads {fields : FieldSet} :
    parse text = .ok fields ↔ ∃ selections, Selection.Lists selections fields ∧
      (IsSelections text selections ∧ ¬ EndsInComment text ∨ ClosesEarly text selections) := by
  simp only [parse_eq_ok, runOn_braced_iff, Selection.lists_iff, and_comm]

variable (text) in
/-- **Reading accepts exactly the bare selection sets**, and lists what they select, except for
selections in front of a comment that ends the text, and for texts that close the added brace. -/
theorem parses_selections_iff :
    (∀ fields, parse text = .ok fields ↔
      ∃ selections, IsSelections text selections ∧ Selection.Lists selections fields) ↔
    ¬ (EndsInComment text ∧ ∃ selections, IsSelections text selections) ∧
      ¬ ∃ selections, ClosesEarly text selections := by
  constructor
  · intro h
    -- A text that closes the brace early is read, and is no selection set.
    have hcloses : ¬ ∃ selections, ClosesEarly text selections := by
      rintro ⟨selections, hcloses⟩
      have hread := parse_eq_ok_iff_reads.2
        ⟨selections, Selection.lists_selectedFields selections, .inr hcloses⟩
      obtain ⟨others, hothers, -⟩ := (h _).1 hread
      exact not_isSelections_of_closesEarly hcloses hothers
    refine ⟨?_, hcloses⟩
    rintro ⟨hcomment, selections, hselections⟩
    have hread := (h _).2 ⟨selections, hselections, Selection.lists_selectedFields selections⟩
    obtain ⟨others, -, ⟨-, hends⟩ | hothers⟩ := parse_eq_ok_iff_reads.1 hread
    · exact hends hcomment
    · exact hcloses ⟨others, hothers⟩
  · rintro ⟨hcomment, hcloses⟩ fields
    rw [parse_eq_ok_iff_reads]
    constructor
    · rintro ⟨selections, hlists, ⟨hselections, -⟩ | hearly⟩
      · exact ⟨selections, hselections, hlists⟩
      · exact absurd ⟨selections, hearly⟩ hcloses
    · rintro ⟨selections, hselections, hlists⟩
      exact ⟨selections, hlists, .inl ⟨hselections, fun h => hcomment ⟨h, selections, hselections⟩⟩⟩

/-- A text that goes on with a query behind its selections is read, and one that ends with a comment
is not. -/
theorem parses_other_texts :
    (∃ fields, parse "id \x7d query X \x7b y" = .ok fields ∧ print fields = "id") ∧
    (¬ ∃ selections, IsSelections "id \x7d query X \x7b y" selections) ∧
    (∃ selections, IsSelections "id #c" selections) ∧ ∀ fields, parse "id #c" ≠ .ok fields := by
  refine ⟨?_, ?_, ⟨[.field none "id" [] [] []], List.cons_ne_nil _ _, [.name "id"], ?_, ?_⟩, ?_⟩
  · obtain ⟨fields, hread, hprint⟩ :
        ∃ fields ∈ (parse "id \x7d query X \x7b y").toOption, print fields = "id" := by
      decide +kernel
    exact ⟨fields, mem_toOption.1 hread, hprint⟩
  · rintro ⟨selections, h⟩
    have hleft : ∀ read ∈ (selectionSet nestingLimit (.sign .openBrace ::
        ((scan "id \x7d query X \x7b y").tokens.map (·.1) ++ [.sign .closeBrace]))).toOption,
        read.2.isEmpty = false := by
      decide +kernel
    exact absurd (hleft _ (mem_toOption.2 h.selectionSet_eq)) (by simp)
  · exact .cons (show token? _ = some ⟨.name "id", ['i', 'd'], [' ', '#', 'c']⟩ from rfl) (.nil rfl)
  · have hfield : Phrase.OneSelection (nestingLimit - 1) (Phrase.selectionSet (nestingLimit - 1))
        [.name "id"] (.field none "id" [] [] []) := .field none "id" .absent .nil .absent
    exact Phrase.Row.cons hfield .nil
  · intro fields h
    have hfails : (parse "id #c").isOk = false := by decide +kernel
    rw [h] at hfails
    cases hfails

end FieldSet

end Supergraph
