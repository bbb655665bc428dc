import Supergraph.Proofs.Language.Joining

/-!
# Texts and their tokens

A text that is put together from spaces, signs and names splits into these signs and names, provided
that no name runs into what follows it. A text that splits into tokens is scanned to its end
(`scan_of_splits`), and a name token is a name of the language whatever text it was read from
(`Splits.isProper`).
-/

namespace Supergraph

/-- Whether a token that is a name is a name of the language. -/
def Token.IsProper : Token → Prop
  | .name text => Lexer.isName text.toList
  | _ => True

namespace Lexer

/-! ## Texts made of tokens -/

/-- No name can go on with the text. -/
def EndsNames (text : List Char) : Prop := ∀ c ∈ text.head?, isNameRest c = false

theorem Splits.space {text : List Char} {tokens : List Token} (h : Splits text tokens) :
    Splits (' ' :: text) tokens := by
  refine h.of_skipped ?_
  show (skip false (Position.start.right 1) text).1 = skipped text
  exact fst_skip ..

/-- The characters that stand between tokens or start a comment. -/
def blanks : List Char := [' ', ',', '\t', '\n', '\r', '\ufeff', '#']

theorem skipped_of_not_mem {c : Char} (hc : c ∉ blanks) (text : List Char) :
    skipped (c :: text) = c :: text := by
  simp only [blanks, List.mem_cons, List.not_mem_nil, or_false, not_or] at hc
  simp [skipped, skip, hc]

/-- A token at the start of a text, where nothing is skipped. -/
theorem Splits.here {c : Char} {text : List Char} {lexeme : Lexeme} {tokens : List Token}
    (hc : c ∉ blanks) (htoken : token? (c :: text) = some lexeme)
    (h : Splits lexeme.rest tokens) : Splits (c :: text) (lexeme.token :: tokens) := by
  refine .cons ?_ h
  rwa [skipped_of_not_mem hc]

theorem Splits.sign {c : Char} {s : Sign} {text : List Char} {tokens : List Token}
    (hc : signOf? c = some s) (h : Splits text tokens) :
    Splits (c :: text) (.sign s :: tokens) := by
  have hother : c ∉ blanks ∧ c ≠ '.' ∧ isNameStart c = false ∧ isNumberStart c = false ∧
      c ≠ '"' := by
    unfold signOf? at hc
    split at hc <;> first | decide | cases hc
  obtain ⟨hblank, hdot, hname, hnumber, hquote⟩ := hother
  have htoken : token? (c :: text) = some ⟨.sign s, [c], text⟩ := by
    simp [token?, hdot, hname, hnumber, hquote, hc]
  exact .here hblank htoken h

theorem not_mem_blanks {c : Char} (hc : isNameStart c) : c ∉ blanks := by
  intro hblank
  have hnone : blanks.any isNameStart = false := by decide
  exact Bool.false_ne_true (hnone.symm.trans (List.any_eq_true.2 ⟨c, hblank, hc⟩))

theorem token?_of_isNameStart {c : Char} (hc : isNameStart c) (text : List Char) :
    token? (c :: text) = some ⟨.name (.ofList (c :: text.takeWhile isNameRest)),
      c :: text.takeWhile isNameRest, text.dropWhile isNameRest⟩ := by
  have hdot : c ≠ '.' := by
    rintro rfl
    exact absurd hc (by decide)
  simp [token?, hc, hdot]

theorem Splits.name {word text : List Char} {tokens : List Token} (hword : isName word)
    (hends : EndsNames text) (h : Splits text tokens) :
    Splits (word ++ text) (.name (.ofList word) :: tokens) := by
  cases word with
  | nil => cases hword
  | cons c word =>
    obtain ⟨hc, hall⟩ := Bool.and_eq_true_iff.1 hword
    have hall : ∀ d ∈ word, isNameRest d = true := List.all_eq_true.1 hall
    have htake : (word ++ text).takeWhile isNameRest = word := by
      rw [List.takeWhile_append_of_pos hall]
      cases text with
      | nil => simp
      | cons d text => simp [hends d rfl]
    have hdrop : (word ++ text).dropWhile isNameRest = text := by
      rw [List.dropWhile_append_of_pos hall]
      cases text with
      | nil => rfl
      | cons d text => simp [hends d rfl]
    have htoken := token?_of_isNameStart hc (word ++ text)
    rw [htake, hdrop] at htoken
    exact .here (not_mem_blanks hc) htoken h

/-! ## Whole texts -/

/-- A text that splits into tokens is scanned to its end. -/
theorem scanFrom_of_splits {text : List Char} {tokens : List Token} (h : Splits text tokens)
    (fuel : Nat) (p : Position) (hfuel : text.length < fuel) :
    (scanFrom fuel p text).tokens.map (·.1) = tokens ∧ (scanFrom fuel p text).complete = true := by
  have hskip : ∀ p text, (skip false p text).1 = skipped text := fun p text => fst_skip ..
  obtain ⟨fuel, rfl⟩ := Nat.exists_eq_add_one_of_ne_zero (Nat.ne_of_gt (Nat.zero_lt_of_lt hfuel))
  induction h generalizing fuel p with
  | nil h => simp [scanFrom, hskip, h, token?]
  | @cons text lexeme tokens htoken rest ih =>
    -- The rest is shorter, since a token has characters.
    have hlength : lexeme.rest.length < fuel := by
      obtain ⟨front, hfront⟩ := exists_eq_skip false .start text
      obtain ⟨heq, hne⟩ := takenFrom_of_token? htoken
      have hpos := List.length_pos_iff.2 hne
      rw [hfront, show (skip false .start text).1 = _ from heq, List.length_append,
        List.length_append] at hfuel
      omega
    obtain ⟨fuel, rfl⟩ :=
      Nat.exists_eq_add_one_of_ne_zero (Nat.ne_of_gt (Nat.zero_lt_of_lt hlength))
    obtain ⟨htokens, hcomplete⟩ := ih ((skip false p text).2.after lexeme.text) fuel hlength
    rw [scanFrom]
    simp only [hskip, htoken, List.map_cons, htokens, hcomplete, and_self]

theorem scan_of_splits {text : String} {tokens : List Token} (h : Splits text.toList tokens) :
    (scan text).tokens.map (·.1) = tokens ∧ (scan text).complete = true :=
  scanFrom_of_splits h (text.length + 1) .start
    (by rw [String.length_toList]; exact Nat.lt_succ_self _)

/-! ## Proper tokens -/

theorem isProper_of_int? {row : List Char} {token : Token} (h : int? row = some token) :
    token.IsProper := by
  obtain ⟨⟨negative, digits⟩, -, h⟩ := Option.bind_eq_some_iff.1 h
  simp only [] at h
  split_ifs at h
  all_goals
    obtain rfl := Option.some.inj h
    trivial

theorem isProper_of_floatOf? {row : List Char} {exponent : Int} {token : Token}
    (h : floatOf? row exponent = some token) : token.IsProper := by
  unfold floatOf? at h
  split at h
  · obtain ⟨⟨negative, digits⟩, -, h⟩ := Option.bind_eq_some_iff.1 h
    obtain ⟨places, -, h⟩ := Option.bind_eq_some_iff.1 h
    obtain rfl := Option.some.inj h
    trivial
  · obtain ⟨⟨negative, digits⟩, -, h⟩ := Option.bind_eq_some_iff.1 h
    obtain rfl := Option.some.inj h
    trivial

theorem isProper_of_number? {row : List Char} {token : Token} (h : number? row = some token) :
    token.IsProper := by
  unfold number? at h
  split at h
  · obtain ⟨exponent, -, h⟩ := Option.bind_eq_some_iff.1 h
    exact isProper_of_floatOf? h
  · split_ifs at h
    · exact isProper_of_floatOf? h
    · exact isProper_of_int? h

theorem isProper_of_string? {text : List Char} {lexeme : Lexeme} (h : string? text = some lexeme) :
    lexeme.token.IsProper := by
  unfold string? at h
  split at h
  · obtain ⟨⟨inside, rest⟩, -, h⟩ := Option.bind_eq_some_iff.1 h
    obtain rfl := Option.some.inj h
    trivial
  · obtain ⟨⟨inside, rest⟩, -, h⟩ := Option.bind_eq_some_iff.1 h
    obtain ⟨value, -, h⟩ := Option.bind_eq_some_iff.1 h
    obtain rfl := Option.some.inj h
    trivial
  · cases h

theorem isName_takeWhile {c : Char} (hc : isNameStart c) (text : List Char) :
    isName (c :: text.takeWhile isNameRest) := by
  rw [isName, hc, Bool.true_and, List.all_eq_true]
  exact fun d hd => List.mem_takeWhile_imp hd

theorem isProper_of_token? {text : List Char} {lexeme : Lexeme} (h : token? text = some lexeme) :
    lexeme.token.IsProper := by
  unfold token? at h
  split at h
  · cases h
  · obtain rfl := Option.some.inj h
    trivial
  · split_ifs at h with hname hnumber hquote
    · obtain rfl := Option.some.inj h
      simpa [Token.IsProper] using isName_takeWhile hname _
    · obtain ⟨token, htoken, rfl⟩ := Option.map_eq_some_iff.1 h
      exact isProper_of_number? htoken
    · exact isProper_of_string? h
    · obtain ⟨sign, -, rfl⟩ := Option.map_eq_some_iff.1 h
      trivial

theorem Splits.isProper {text : List Char} {tokens : List Token} (h : Splits text tokens) :
    ∀ token ∈ tokens, token.IsProper := by
  induction h with
  | nil => exact List.forall_mem_nil _
  | cons htoken _ ih => exact List.forall_mem_cons.2 ⟨isProper_of_token? htoken, ih⟩

end Lexer

end Supergraph
