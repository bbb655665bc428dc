import Supergraph.Proofs.Language.Joining

/-!
# Texts in front of a brace

When a space and a closing brace are put behind a text, every token of the text is over at the
space, so the brace is one more token. Only a comment goes on: if the text ends inside a comment,
the brace is swallowed.

**Main result** (`splits_append_closing_iff`). The tokens of the longer text are those of the text,
and the brace unless the text ends inside a comment. In particular nothing becomes a token because
of what is put behind it: neither the space nor the brace can end a string.
-/

namespace Supergraph.Lexer

/-- What is put behind a text. -/
def closing : List Char := [' ', '}']

/-! ## The end of a text -/

/-- The text consists of the tokens and of what stands between tokens, and `inComment` says whether
it ends inside a comment. -/
inductive Consists : List Char → List Token → Bool → Prop
  | nil {text : List Char} (h : skipped text = []) : Consists text [] (commentAfter false text)
  | cons {text : List Char} {lexeme : Lexeme} {tokens : List Token} {inComment : Bool}
      (h : token? (skipped text) = some lexeme) (rest : Consists lexeme.rest tokens inComment) :
      Consists text (lexeme.token :: tokens) inComment

theorem Consists.splits {text : List Char} {tokens : List Token} {inComment : Bool}
    (h : Consists text tokens inComment) : Splits text tokens := by
  induction h with
  | nil h => exact .nil h
  | cons h _ ih => exact .cons h ih

theorem exists_consists {text : List Char} {tokens : List Token} (h : Splits text tokens) :
    ∃ inComment, Consists text tokens inComment := by
  induction h with
  | nil h => exact ⟨_, .nil h⟩
  | cons h _ ih =>
    obtain ⟨inComment, hrest⟩ := ih
    exact ⟨inComment, .cons h hrest⟩

/-- A text ends in one way only. -/
theorem Consists.unique {text : List Char} {tokens others : List Token} {inComment other : Bool}
    (h : Consists text tokens inComment) (hother : Consists text others other) :
    tokens = others ∧ inComment = other := by
  induction h generalizing others with
  | nil h =>
    cases hother with
    | nil => exact ⟨rfl, rfl⟩
    | cons htoken =>
      rw [h] at htoken
      cases htoken
  | cons h rest ih =>
    cases hother with
    | nil hnil =>
      rw [hnil] at h
      cases h
    | cons htoken hrest =>
      obtain rfl := Option.some.inj (h.symm.trans htoken)
      obtain ⟨rfl, rfl⟩ := ih hrest
      exact ⟨rfl, rfl⟩

theorem skipped_append_closing (text : List Char) :
    skipped (text ++ closing) = if skipped text = [] then
      (if commentAfter false text then [] else ['}']) else skipped text ++ closing := by
  rw [skipped, fst_skip_append]
  cases commentAfter false text <;> rfl

/-! ## Strings -/

section Quotes

variable {text more : List Char}

theorem quotedInside?_eq_none (h : '"' ∉ text) : quotedInside? text = none := by
  refine Option.eq_none_iff_forall_ne_some.2 ?_
  rintro ⟨inside, rest⟩ hread
  exact h (by simp [eq_of_quotedInside? hread])

theorem blockInside?_eq_none (h : '"' ∉ text) : blockInside? text = none := by
  refine Option.eq_none_iff_forall_ne_some.2 ?_
  rintro ⟨inside, rest⟩ hread
  exact h (by simp [eq_of_blockInside? hread, Text.tripleQuote])

/-- What a longer text starts with is in the text itself, if it is not in what follows. -/
theorem exists_of_append_eq (start : List Char) {others : List Char}
    (h : text ++ more = start ++ others) (hmore : ∀ c ∈ start, c ∉ more) :
    ∃ rest, text = start ++ rest := by
  rcases List.append_eq_append_iff.1 h with ⟨rest, hstart, hrest⟩ | ⟨rest, htext, -⟩
  · cases rest with
    | nil => exact ⟨[], by simpa using hstart.symm⟩
    | cons c rest => exact absurd (by simp [hrest]) (hmore c (by simp [hstart]))
  · exact ⟨rest, htext⟩

variable (hmore : '"' ∉ more)

include hmore

theorem quotedInside?_append_of_none (h : quotedInside? text = none) :
    quotedInside? (text ++ more) = none := by
  fun_induction quotedInside? text with
  | case1 => exact quotedInside?_eq_none hmore
  | case2 => cases h
  | case3 | case4 => rfl
  | case5 c text hc ih =>
    have ih := ih (Option.map_eq_none_iff.1 h)
    simp [quotedInside?, ih]
  | case6 c text hquote hline hlines hescape ih =>
    have ih := ih (Option.map_eq_none_iff.1 h)
    cases text with
    | nil =>
      refine quotedInside?_eq_none ?_
      rw [List.singleton_append, List.mem_cons, not_or]
      exact ⟨fun e => hquote e.symm, hmore⟩
    | cons d text =>
      -- The text goes on, so the escape is decided by its own characters.
      have hbackslash : c ≠ '\\' := fun e => hescape d text e rfl
      rw [List.cons_append, quotedInside?, ih]
      · rfl
      · exact hquote
      · exact hline
      · exact fun _ e => absurd e hbackslash
      · exact fun _ _ e => absurd e hbackslash

theorem blockInside?_append_of_none (h : blockInside? text = none) :
    blockInside? (text ++ more) = none := by
  have hquotes : ∀ c ∈ Text.tripleQuote, c ∉ more := by
    simpa [Text.tripleQuote] using hmore
  fun_induction blockInside? text with
  | case1 => exact blockInside?_eq_none hmore
  | case2 text ih =>
    have ih := ih (Option.map_eq_none_iff.1 h)
    simp [blockInside?, ih]
  | case3 => cases h
  | case4 c text hescape hclose ih =>
    have ih := ih (Option.map_eq_none_iff.1 h)
    rw [List.cons_append, blockInside?, ih]
    · rfl
    · -- Quotes that open in the text close in it, since there are none in what follows.
      intro others hc e
      obtain ⟨rest, rfl⟩ := exists_of_append_eq Text.tripleQuote e hquotes
      exact hescape rest hc rfl
    · intro others hc e
      have hstart : (c :: text) ++ more = Text.tripleQuote ++ others := by
        rw [List.cons_append, e, hc]
        rfl
      obtain ⟨rest, hrest⟩ := exists_of_append_eq Text.tripleQuote hstart hquotes
      obtain ⟨-, rfl⟩ := List.cons.injEq .. ▸ hrest
      exact hclose rest hc rfl

/-- No string ends behind the text. -/
theorem string?_append_more :
    string? (text ++ more) = (string? text).map (·.before more) := by
  fun_cases string? text with
  | case1 body =>
    cases hread : blockInside? body with
    | none => simp [string?, blockInside?_append_of_none hmore hread]
    | some found => simp [string?, blockInside?_append more hread, Lexeme.before]
  | case2 body hblock =>
    -- Without quotes in what follows, the text does not turn into a block string.
    have hlonger : ∀ others, body ++ more = '"' :: '"' :: others → False := by
      intro others e
      obtain ⟨rest, rfl⟩ := exists_of_append_eq ['"', '"'] e (by simpa using hmore)
      exact hblock rest rfl
    rw [List.cons_append, string?.eq_2 _ hlonger]
    cases hread : quotedInside? body with
    | none => simp [quotedInside?_append_of_none hmore hread]
    | some found =>
      cases hvalue : Text.unescape found.1 with
      | none => simp [quotedInside?_append more hread, hvalue]
      | some value => simp [quotedInside?_append more hread, hvalue, Lexeme.before]
  | case3 text _ hquoted =>
    have hstart : ∀ body, text ++ more ≠ '"' :: body := by
      intro body e
      obtain ⟨rest, rfl⟩ := exists_of_append_eq ['"'] e (by simpa using hmore)
      exact hquoted rest rfl
    rw [string?]
    · rfl
    · exact fun body => hstart _
    · exact fun body => hstart _

end Quotes

/-! ## Tokens -/

theorem takeWhile_append_closing {p : Char → Bool} (hp : p ' ' = false) (text : List Char) :
    (text ++ closing).takeWhile p = text.takeWhile p := by
  rw [List.takeWhile_append]
  split_ifs with h
  · rw [(List.takeWhile_prefix p).eq_of_length h, closing,
      List.takeWhile_cons_of_neg (by simp [hp]), List.append_nil]
  · rfl

theorem dropWhile_append_closing {p : Char → Bool} (hp : p ' ' = false) (text : List Char) :
    (text ++ closing).dropWhile p = text.dropWhile p ++ closing := by
  rw [List.dropWhile_append]
  split_ifs with h
  · rw [List.isEmpty_iff.1 h, List.nil_append, closing, List.dropWhile_cons_of_neg (by simp [hp])]
  · rfl

/-- A token of a text is over at the space behind it. -/
theorem token?_append_closing {text : List Char} (hne : text ≠ []) :
    token? (text ++ closing) = (token? text).map (·.before closing) := by
  obtain ⟨c, text, rfl⟩ := List.exists_cons_of_ne_nil hne
  -- Three dots are one sign, so they are matched before the first character is looked at.
  by_cases hspread : ∃ others, c = '.' ∧ text = '.' :: '.' :: others
  · obtain ⟨others, rfl, rfl⟩ := hspread
    rfl
  have hhere : ∀ others, c = '.' → text = '.' :: '.' :: others → False :=
    fun others hc e => hspread ⟨others, hc, e⟩
  have hlonger : ∀ others, c = '.' → text ++ closing = '.' :: '.' :: others → False := by
    intro others hc e
    obtain ⟨more, rfl⟩ := exists_of_append_eq ['.', '.'] e (by simp [closing])
    exact hhere more hc rfl
  have hend : (! endsNumber ' ') = false := rfl
  rw [List.cons_append, token?.eq_3 _ _ hlonger, token?.eq_3 _ _ hhere]
  split_ifs with hname hnumber hquote
  · simp only [takeWhile_append_closing (p := isNameRest) rfl,
      dropWhile_append_closing (p := isNameRest) rfl]
    rfl
  · simp only [takeWhile_append_closing (p := (! endsNumber ·)) hend,
      dropWhile_append_closing (p := (! endsNumber ·)) hend, Option.map_map]
    rfl
  · have hquote : '"' ∉ closing := by simp [closing]
    rw [← List.cons_append]
    exact string?_append_more hquote
  · rw [Option.map_map]
    rfl

/-- What is read of a space and a brace behind a text. -/
def closingTokens (inComment : Bool) : List Token :=
  if inComment then [] else [.sign .closeBrace]

/-- **The tokens of a text in front of a brace** are those of the text, and the brace unless the
text ends inside a comment. -/
theorem splits_append_closing_iff {text : List Char} {tokens : List Token} :
    Splits (text ++ closing) tokens ↔ ∃ front inComment, Consists text front inComment ∧
      tokens = front ++ closingTokens inComment := by
  constructor
  · intro h
    -- The tokens may end in the text, or with the brace when the text leaves no comment open.
    generalize htext : text ++ closing = longer at h
    induction h generalizing text with
    | nil h =>
      rw [← htext, skipped_append_closing] at h
      split_ifs at h with hskipped hcomment
      · refine ⟨[], commentAfter false text, .nil hskipped, ?_⟩
        rw [hcomment]
        rfl
      · simp [closing] at h
    | @cons longer lexeme tokens htoken rest ih =>
      subst htext
      rw [skipped_append_closing] at htoken
      split_ifs at htoken with hskipped hcomment
      · cases htoken
      · obtain rfl := Option.some.inj htoken
        refine ⟨[], commentAfter false text, .nil hskipped, ?_⟩
        obtain rfl := rest.unique (.nil rfl)
        rw [closingTokens, if_neg hcomment]
        rfl
      · rw [token?_append_closing hskipped] at htoken
        obtain ⟨own, hown, rfl⟩ := Option.map_eq_some_iff.1 htoken
        obtain ⟨front, inComment, hfront, rfl⟩ := ih rfl
        exact ⟨own.token :: front, inComment, .cons hown hfront, rfl⟩
  · rintro ⟨front, inComment, hfront, rfl⟩
    induction hfront with
    | @nil text hskipped =>
      cases hcomment : commentAfter false text with
      | true =>
        refine .nil ?_
        rw [skipped_append_closing, if_pos hskipped, if_pos hcomment]
      | false =>
        have htoken : token? (skipped (text ++ closing)) =
            some ⟨.sign .closeBrace, ['}'], []⟩ := by
          rw [skipped_append_closing, if_pos hskipped, if_neg (by simp [hcomment])]
          rfl
        exact .cons htoken (.nil rfl)
    | @cons text lexeme front inComment htoken hrest ih =>
      have hskipped : skipped text ≠ [] := by
        intro e
        rw [e] at htoken
        cases htoken
      have hlonger : token? (skipped (text ++ closing)) = some (lexeme.before closing) := by
        rw [skipped_append_closing, if_neg hskipped, token?_append_closing hskipped, htoken]
        rfl
      have hall : Splits (text ++ closing)
          ((lexeme.before closing).token :: (front ++ closingTokens inComment)) := .cons hlonger ih
      exact hall

end Supergraph.Lexer
