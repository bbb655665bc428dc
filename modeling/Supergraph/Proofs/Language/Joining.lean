import Mathlib.Data.List.TakeWhile
import Supergraph.Language.Lexer

/-!
# Texts behind each other

A text that ends with a line feed is over: neither a token nor a comment goes on into what follows.
So if two texts consist of tokens and the first one ends with a line feed, both together consist of
the tokens of both.

**The relation** (`Splits`). A text splits into tokens if a token stands behind everything that is
skipped, and the rest splits again. A text splits in one way only (`Splits.unique`), and a scan that
reads it to its end finds these tokens (`splits_of_complete`).

**Main result** (`Splits.append`). Induction on the first text: its last line feed stays in the rest
until nothing is left, and what is skipped or read as a token before does not depend on what follows
the line feed (`skipped_append`, `token?_append`).
-/

namespace Supergraph.Lexer

/-! ## Splitting a text -/

/-- What is left of a text behind everything that stands between tokens. -/
def skipped (text : List Char) : List Char := (skip false .start text).1

theorem fst_skip (comment : Bool) (p q : Position) (text : List Char) :
    (skip comment p text).1 = (skip comment q text).1 := by
  induction text generalizing comment p q with
  | nil => rfl
  | cons c rest ih =>
    simp only [skip]
    split_ifs
    all_goals first | exact ih .. | rfl

/-- The text consists of the tokens and of what stands between tokens. -/
inductive Splits : List Char → List Token → Prop where
  | nil {text : List Char} (h : skipped text = []) : Splits text []
  | cons {text : List Char} {lexeme : Lexeme} {tokens : List Token}
      (h : token? (skipped text) = some lexeme) (rest : Splits lexeme.rest tokens) :
      Splits text (lexeme.token :: tokens)

theorem Splits.of_skipped {text other : List Char} {tokens : List Token} (h : Splits text tokens)
    (hskipped : skipped other = skipped text) : Splits other tokens := by
  cases h with
  | nil h => exact .nil (hskipped.trans h)
  | cons h rest => exact .cons (hskipped ▸ h) rest

theorem Splits.unique {text : List Char} {tokens others : List Token} (h : Splits text tokens)
    (hothers : Splits text others) : tokens = others := by
  induction h generalizing others with
  | nil h =>
    cases hothers with
    | nil => rfl
    | cons htoken =>
      rw [h] at htoken
      cases htoken
  | cons h rest ih =>
    cases hothers with
    | nil hnil =>
      rw [hnil] at h
      cases h
    | cons htoken hrest =>
      obtain rfl := Option.some.inj (h.symm.trans htoken)
      rw [ih hrest]

theorem splits_of_complete (fuel : Nat) (p : Position) (text : List Char)
    (h : (scanFrom fuel p text).complete = true) :
    Splits text ((scanFrom fuel p text).tokens.map (·.1)) := by
  induction fuel generalizing p text with
  | zero =>
    obtain rfl : text = [] := List.isEmpty_iff.1 h
    exact .nil rfl
  | succ fuel ih =>
    rw [scanFrom] at h ⊢
    have hskip : (skip false p text).1 = skipped text := fst_skip ..
    simp only [hskip] at h ⊢
    cases htoken : token? (skipped text) with
    | none =>
      simp only [htoken] at h ⊢
      exact .nil (List.isEmpty_iff.1 h)
    | some lexeme =>
      simp only [htoken] at h ⊢
      exact .cons htoken (ih _ _ h)

/-! ## The text of a token -/

theorem eq_of_quotedInside? {text inside rest : List Char}
    (h : quotedInside? text = some (inside, rest)) : text = inside ++ '"' :: rest := by
  fun_induction quotedInside? text generalizing inside with
  | case1 | case3 | case4 => cases h
  | case2 => cases h; rfl
  | case5 c text hc ih =>
    obtain ⟨⟨first, last⟩, hread, e⟩ := Option.map_eq_some_iff.1 h
    cases e
    rw [ih hread]
    rfl
  | case6 c text hquote hline hlines hescape ih =>
    obtain ⟨⟨first, last⟩, hread, e⟩ := Option.map_eq_some_iff.1 h
    cases e
    rw [ih hread]
    rfl

theorem eq_of_blockInside? {text inside rest : List Char}
    (h : blockInside? text = some (inside, rest)) :
    text = inside ++ Text.tripleQuote ++ rest := by
  fun_induction blockInside? text generalizing inside with
  | case1 => cases h
  | case2 text ih =>
    obtain ⟨⟨first, last⟩, hread, e⟩ := Option.map_eq_some_iff.1 h
    cases e
    rw [ih hread]
    rfl
  | case3 => cases h; rfl
  | case4 c text hescape hquotes ih =>
    obtain ⟨⟨first, last⟩, hread, e⟩ := Option.map_eq_some_iff.1 h
    cases e
    rw [ih hread]
    rfl

/-- What a lexeme takes from the front of a text. -/
structure Lexeme.TakenFrom (lexeme : Lexeme) (text : List Char) : Prop where
  eq : text = lexeme.text ++ lexeme.rest
  ne_nil : lexeme.text ≠ []

theorem takenFrom_of_string? {text : List Char} {lexeme : Lexeme}
    (h : string? text = some lexeme) : lexeme.TakenFrom text := by
  unfold string? at h
  split at h
  · obtain ⟨⟨inside, rest⟩, hread, h⟩ := Option.bind_eq_some_iff.1 h
    obtain rfl := Option.some.inj h
    exact ⟨by rw [eq_of_blockInside? hread]; simp [Text.tripleQuote], List.cons_ne_nil _ _⟩
  · obtain ⟨⟨inside, rest⟩, hread, h⟩ := Option.bind_eq_some_iff.1 h
    obtain ⟨value, -, h⟩ := Option.bind_eq_some_iff.1 h
    obtain rfl := Option.some.inj h
    exact ⟨by rw [eq_of_quotedInside? hread]; simp, List.cons_ne_nil _ _⟩
  · cases h

/-- A text that starts with a token is the text of the token and the rest. -/
theorem takenFrom_of_token? {text : List Char} {lexeme : Lexeme}
    (h : token? text = some lexeme) : lexeme.TakenFrom text := by
  unfold token? at h
  split at h
  · cases h
  · obtain rfl := Option.some.inj h
    exact ⟨rfl, List.cons_ne_nil _ _⟩
  · split_ifs at h with hname hnumber hquote
    · obtain rfl := Option.some.inj h
      exact ⟨by simp, List.cons_ne_nil _ _⟩
    · obtain ⟨token, -, rfl⟩ := Option.map_eq_some_iff.1 h
      exact ⟨by simp, List.cons_ne_nil _ _⟩
    · exact takenFrom_of_string? h
    · obtain ⟨sign, -, rfl⟩ := Option.map_eq_some_iff.1 h
      exact ⟨rfl, List.cons_ne_nil _ _⟩

/-! ## Texts that end with a line feed -/

/-- Whether the text ends with a line feed, if it is not empty. -/
def EndsLine (text : List Char) : Prop := ∀ c ∈ text.getLast?, c = '\n'

theorem EndsLine.of_append {front back : List Char} (h : EndsLine (front ++ back)) :
    EndsLine back := by
  intro c hc
  refine h c ?_
  rw [List.getLast?_append, Option.mem_def.1 hc]
  rfl

theorem EndsLine.tail {c : Char} {text : List Char} (h : EndsLine (c :: text)) : EndsLine text :=
  EndsLine.of_append (show EndsLine ([c] ++ text) from h)

/-- A line feed comes before the end of a text that starts with another character. -/
theorem EndsLine.mem_of_ne {c : Char} {text : List Char} (h : EndsLine (c :: text))
    (hc : c ≠ '\n') : '\n' ∈ text := by
  cases text with
  | nil => exact absurd (h c rfl) hc
  | cons d text =>
    have hlast : (d :: text).getLast (List.cons_ne_nil d text) = '\n' :=
      h.tail _ (List.getLast?_eq_some_getLast _)
    exact hlast ▸ List.getLast_mem _

/-! ### What is skipped -/

/-- Whether a text without tokens ends inside a comment; `comment` says whether it starts in one. -/
def commentAfter (comment : Bool) : List Char → Bool
  | [] => comment
  | c :: rest =>
    if comment then
      if c = '\n' ∨ c = '\r' then commentAfter false rest else commentAfter true rest
    else commentAfter (c = '#') rest

/-- What is skipped in front of more text, which may start inside a comment. -/
theorem fst_skip_append (comment : Bool) (p : Position) (text more : List Char) :
    (skip comment p (text ++ more)).1 =
      if (skip comment p text).1 = [] then (skip (commentAfter comment text) .start more).1
      else (skip comment p text).1 ++ more := by
  induction text generalizing comment p with
  | nil => exact (fst_skip comment p .start more).trans (if_pos rfl).symm
  | cons c rest ih =>
    simp only [List.cons_append, skip, commentAfter]
    cases comment with
    | true =>
      by_cases hc : c = '\n' ∨ c = '\r'
      · simp only [if_true, hc, ih]
      · simp only [if_true, hc, if_false, ih]
    | false =>
      by_cases hc : c = '#'
      · subst hc
        simp [ih]
      · simp only [Bool.false_eq_true, if_false, hc, decide_false]
        split_ifs <;> simp_all

/-- A comment is over at the line feed at the end. -/
theorem EndsLine.commentAfter_eq {comment : Bool} {text : List Char} (h : EndsLine text)
    (hcomment : comment → text ≠ []) : commentAfter comment text = false := by
  induction text generalizing comment with
  | nil =>
    cases comment with
    | false => rfl
    | true => exact absurd rfl (hcomment rfl)
  | cons c rest ih =>
    -- A comment that goes on is closed before the end of the text.
    have hinside : c ≠ '\n' → rest ≠ [] := fun hc => List.ne_nil_of_mem (h.mem_of_ne hc)
    simp only [commentAfter]
    split_ifs with hin hline
    · exact ih h.tail fun h => absurd h Bool.false_ne_true
    · exact ih h.tail fun _ => hinside fun e => hline (.inl e)
    · refine ih h.tail fun hstart => hinside ?_
      rw [of_decide_eq_true hstart]
      decide

theorem skipped_append {text : List Char} (more : List Char) (hends : EndsLine text) :
    skipped (text ++ more) = if skipped text = [] then skipped more else skipped text ++ more := by
  rw [skipped, fst_skip_append, hends.commentAfter_eq fun h => absurd h Bool.false_ne_true]
  rfl

/-- What is left behind the skipped characters is the end of the text. -/
theorem exists_eq_skip (comment : Bool) (p : Position) (text : List Char) :
    ∃ front, text = front ++ (skip comment p text).1 := by
  induction text generalizing comment p with
  | nil => exact ⟨[], rfl⟩
  | cons c rest ih =>
    have hstep : ∀ comment p, ∃ front, c :: rest = front ++ (skip comment p rest).1 := by
      intro comment p
      obtain ⟨front, h⟩ := ih comment p
      exact ⟨c :: front, by rw [List.cons_append, ← h]⟩
    simp only [skip]
    split_ifs
    all_goals first | exact hstep .. | exact ⟨[], rfl⟩

theorem EndsLine.skipped {text : List Char} (h : EndsLine text) : EndsLine (skipped text) := by
  obtain ⟨front, heq⟩ := exists_eq_skip false .start text
  rw [heq] at h
  exact h.of_append

/-! ### What is read as a token -/

theorem takeWhile_append_of_mem {p : Char → Bool} {text : List Char} (more : List Char) {c : Char}
    (hc : c ∈ text) (hp : p c = false) : (text ++ more).takeWhile p = text.takeWhile p := by
  rw [List.takeWhile_append, if_neg]
  intro hlength
  have hall := List.takeWhile_eq_self_iff.1 ((List.takeWhile_prefix p).eq_of_length hlength)
  exact absurd (hall c hc) (by simp [hp])

theorem dropWhile_append_of_mem {p : Char → Bool} {text : List Char} (more : List Char) {c : Char}
    (hc : c ∈ text) (hp : p c = false) :
    (text ++ more).dropWhile p = text.dropWhile p ++ more := by
  rw [List.dropWhile_append, if_neg]
  intro hempty
  have hall := List.dropWhile_eq_nil_iff.1 (List.isEmpty_iff.1 hempty)
  exact absurd (hall c hc) (by simp [hp])

theorem quotedInside?_append {text inside rest : List Char} (more : List Char)
    (h : quotedInside? text = some (inside, rest)) :
    quotedInside? (text ++ more) = some (inside, rest ++ more) := by
  fun_induction quotedInside? text generalizing inside with
  | case1 | case3 | case4 => cases h
  | case2 => cases h; rfl
  | case5 c text hc ih =>
    obtain ⟨⟨first, last⟩, hread, e⟩ := Option.map_eq_some_iff.1 h
    cases e
    simp [quotedInside?, ih hread]
  | case6 c text hquote hline hlines hescape ih =>
    obtain ⟨⟨first, last⟩, hread, e⟩ := Option.map_eq_some_iff.1 h
    cases e
    -- The text goes on to its closing quote, so the escape is decided by its own characters.
    have hne : text ≠ [] := by
      rintro rfl
      cases hread
    obtain ⟨d, text, rfl⟩ := List.exists_cons_of_ne_nil hne
    have hbackslash : c ≠ '\\' := fun e => hescape d text e rfl
    have ih := ih hread
    rw [List.cons_append, quotedInside?, ih]
    · rfl
    · exact hquote
    · exact hline
    · exact fun _ e => absurd e hbackslash
    · exact fun _ _ e => absurd e hbackslash

theorem blockInside?_append {text inside rest : List Char} (more : List Char)
    (h : blockInside? text = some (inside, rest)) :
    blockInside? (text ++ more) = some (inside, rest ++ more) := by
  fun_induction blockInside? text generalizing inside with
  | case1 => cases h
  | case2 text ih =>
    obtain ⟨⟨first, last⟩, hread, e⟩ := Option.map_eq_some_iff.1 h
    cases e
    simp [blockInside?, ih hread]
  | case3 => cases h; rfl
  | case4 c text hescape hquotes ih =>
    obtain ⟨⟨first, last⟩, hread, e⟩ := Option.map_eq_some_iff.1 h
    cases e
    -- Three characters are left, so the quotes are decided by the text alone.
    have hlength : 3 ≤ text.length := by
      have hquotes : Text.tripleQuote.length = 3 := rfl
      rw [eq_of_blockInside? hread, List.length_append, List.length_append]
      omega
    obtain ⟨a, b, d, text, rfl⟩ : ∃ a b d others, text = a :: b :: d :: others := by
      match text, hlength with
      | a :: b :: d :: others, _ => exact ⟨a, b, d, others, rfl⟩
    rw [List.cons_append, blockInside?, ih hread]
    · rfl
    · rintro others hc e
      simp only [List.cons_append, List.cons.injEq] at e
      obtain ⟨rfl, rfl, rfl, -⟩ := e
      exact hescape text hc rfl
    · rintro others hc e
      simp only [List.cons_append, List.cons.injEq] at e
      obtain ⟨rfl, rfl, -⟩ := e
      exact hquotes _ hc rfl

/-- The lexeme in front of a longer text. -/
def Lexeme.before (lexeme : Lexeme) (more : List Char) : Lexeme :=
  { lexeme with rest := lexeme.rest ++ more }

theorem string?_append {text : List Char} {lexeme : Lexeme} (more : List Char)
    (hends : EndsLine text) (h : string? text = some lexeme) :
    string? (text ++ more) = some (lexeme.before more) := by
  unfold string? at h
  split at h
  · obtain ⟨⟨inside, rest⟩, hread, h⟩ := Option.bind_eq_some_iff.1 h
    obtain rfl := Option.some.inj h
    simp [string?, blockInside?_append more hread, Lexeme.before]
  next body hblock =>
    obtain ⟨⟨inside, rest⟩, hread, h⟩ := Option.bind_eq_some_iff.1 h
    obtain ⟨value, hvalue, h⟩ := Option.bind_eq_some_iff.1 h
    obtain rfl := Option.some.inj h
    -- The text goes on behind its first quote, so a second and third one would be its own.
    obtain ⟨a, b, body, rfl⟩ : ∃ a b others, body = a :: b :: others := by
      have hmem := hends.mem_of_ne (by decide)
      match body, hmem with
      | a :: b :: others, _ => exact ⟨a, b, others, rfl⟩
      | [a], hmem =>
        obtain rfl := List.mem_singleton.1 hmem
        cases hread
    have hmore := quotedInside?_append more hread
    simp only [List.cons_append] at hmore ⊢
    rw [string?]
    · simp [hmore, hvalue, Lexeme.before]
    · rintro others e
      simp only [List.cons.injEq] at e
      obtain ⟨rfl, rfl, -⟩ := e
      exact hblock body rfl
  · cases h

/-- A token in a text that ends with a line feed does not depend on what follows. -/
theorem token?_append {text : List Char} {lexeme : Lexeme} (more : List Char)
    (hends : EndsLine text) (h : token? text = some lexeme) :
    token? (text ++ more) = some (lexeme.before more) := by
  unfold token? at h
  split at h
  · cases h
  · obtain rfl := Option.some.inj h
    rfl
  next c text hspread =>
    -- A dot that begins no spread begins no token.
    have hdot : c ≠ '.' := by
      rintro rfl
      rw [if_neg (by decide), if_neg (by decide), if_neg (by decide)] at h
      cases h
    rw [List.cons_append, token?]
    · split_ifs at h ⊢ with hname hnumber hquote
      · obtain rfl := Option.some.inj h
        -- The line feed at the end of the text ends the name.
        have hmem := hends.mem_of_ne (by rintro rfl; exact absurd hname (by decide))
        have hline : isNameRest '\n' = false := rfl
        simp only [takeWhile_append_of_mem more hmem hline,
          dropWhile_append_of_mem more hmem hline]
        rfl
      · obtain ⟨token, htoken, rfl⟩ := Option.map_eq_some_iff.1 h
        have hmem := hends.mem_of_ne (by rintro rfl; exact absurd hnumber (by decide))
        have hline : (! endsNumber '\n') = false := rfl
        simp only [takeWhile_append_of_mem (p := (! endsNumber ·)) more hmem hline,
          dropWhile_append_of_mem (p := (! endsNumber ·)) more hmem hline, htoken]
        rfl
      · exact string?_append more hends h
      · obtain ⟨sign, hsign, rfl⟩ := Option.map_eq_some_iff.1 h
        rw [hsign]
        rfl
    · exact fun _ e => absurd e hdot

/-! ## Joining -/

/-- A text that ends with a line feed is over before the next one starts. -/
theorem Splits.append {text more : List Char} {tokens others : List Token} (h : Splits text tokens)
    (hends : EndsLine text) (hmore : Splits more others) :
    Splits (text ++ more) (tokens ++ others) := by
  induction h with
  | nil h =>
    refine hmore.of_skipped ?_
    rw [skipped_append more hends, if_pos h]
  | @cons text lexeme tokens h rest ih =>
    have hne : skipped text ≠ [] := by
      intro e
      rw [e] at h
      cases h
    have htoken : token? (skipped (text ++ more)) = some (lexeme.before more) := by
      rw [skipped_append more hends, if_neg hne]
      exact token?_append more hends.skipped h
    have hrest : EndsLine lexeme.rest :=
      EndsLine.of_append ((takenFrom_of_token? h).eq ▸ hends.skipped)
    have hsplits : Splits (text ++ more) ((lexeme.before more).token :: (tokens ++ others)) :=
      .cons htoken (ih hrest)
    exact hsplits

/-- A line feed in front of a text changes nothing. -/
theorem Splits.newline {text : List Char} {tokens : List Token} (h : Splits text tokens) :
    Splits ('\n' :: text) tokens := by
  refine h.of_skipped ?_
  show (skip false Position.start.newline text).1 = skipped text
  exact fst_skip ..

end Supergraph.Lexer
