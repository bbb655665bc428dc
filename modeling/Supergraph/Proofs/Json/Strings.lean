import Supergraph.Proofs.Json.Numbers

/-!
# Texts of strings

A character is written as itself, as an escape of two characters, or as a code unit. Each of these
is read as one piece, which stands for the character alone (`pieces_escapeChar`, `join?_pieceOf`).
So a string is read back from its text, wherever that stands (`run_string`).
-/

namespace Supergraph.Json

namespace Reader

/-! ## Characters -/

/-- The piece that the text of a character is read as. -/
def pieceOf (c : Char) : Piece :=
  if c.toNat < 0x20 ∧ c ∉ ['\x08', '\x0c', '\n', '\r', '\t'] then .unit c.toNat else .char c

theorem hexDigit?_hexChar {n : Nat} (h : n < 16) : Text.hexDigit? (Text.hexChar n) = some n := by
  revert n
  decide

theorem unit?_of_lt {n : Nat} (h : n < 0x20) :
    unit? '0' '0' (Text.hexChar (n / 16)) (Text.hexChar (n % 16)) = some n := by
  have hzero : Text.hexDigit? '0' = some 0 := by decide
  rw [unit?, hexDigit?_hexChar (by omega), hexDigit?_hexChar (by omega), hzero]
  show some (((0 * 16 + 0) * 16 + n / 16) * 16 + n % 16) = some n
  congr 1
  omega

/-- A character that stands for itself is taken as it is. -/
theorem pieces_cons {c : Char} (hquote : c ≠ '"') (hslash : c ≠ '\\') (h : ¬ c.toNat < 0x20)
    (done : List Piece) (rest : List Char) :
    pieces done (c :: rest) = pieces (.char c :: done) rest := by
  rw [pieces, if_neg h]
  · exact hquote
  · exact fun _ _ _ _ _ hc _ => hslash hc
  · exact fun _ _ hc _ => hslash hc

/-- **The text of a character is read as one piece.** -/
theorem pieces_escapeChar (c : Char) (done : List Piece) (rest : List Char) :
    pieces done (escapeChar c ++ rest) = pieces (pieceOf c :: done) rest := by
  by_cases hshort : c ∈ ['"', '\\', '\x08', '\x0c', '\n', '\r', '\t']
  · simp only [List.mem_cons, List.not_mem_nil, or_false] at hshort
    rcases hshort with rfl | rfl | rfl | rfl | rfl | rfl | rfl <;> rfl
  · simp only [List.mem_cons, List.not_mem_nil, or_false, not_or] at hshort
    obtain ⟨hquote, hslash, hb, hf, hn, hr, ht⟩ := hshort
    by_cases hcontrol : c.toNat < 0x20
    · have hpiece : pieceOf c = .unit c.toNat := if_pos ⟨hcontrol, by simp [hb, hf, hn, hr, ht]⟩
      simp only [escapeChar, hquote, hslash, hb, hf, hn, hr, ht, hcontrol, if_false, if_true,
        List.cons_append, List.nil_append, pieces, unit?_of_lt hcontrol, hpiece]
    · have hpiece : pieceOf c = .char c := if_neg fun h => hcontrol h.1
      simp only [escapeChar, hquote, hslash, hb, hf, hn, hr, ht, hcontrol, if_false,
        List.cons_append, List.nil_append, hpiece]
      exact pieces_cons hquote hslash hcontrol done rest

/-- The piece that a character is read as stands for the character. -/
theorem join?_pieceOf (c : Char) (done : List Char) (rest : List Piece) :
    join? done (pieceOf c :: rest) = join? (c :: done) rest := by
  by_cases hcontrol : c.toNat < 0x20 ∧ c ∉ ['\x08', '\x0c', '\n', '\r', '\t']
  · have hlow : ¬ (0xD800 ≤ c.toNat ∧ c.toNat < 0xDC00) := by omega
    have hhigh : ¬ (0xDC00 ≤ c.toNat ∧ c.toNat < 0xE000) := by omega
    rw [pieceOf, if_pos hcontrol, join?.eq_def]
    simp only [hlow, hhigh, if_false, Char.ofNat_toNat]
  · rw [pieceOf, if_neg hcontrol, join?]

/-! ## Strings -/

theorem pieces_escapeChars (row : List Char) (done : List Piece) (rest : List Char) :
    pieces done (row.flatMap escapeChar ++ '"' :: rest) =
      some (done.reverse ++ row.map pieceOf, rest) := by
  induction row generalizing done with
  | nil => simp [pieces]
  | cons c row ih =>
    rw [List.flatMap_cons, List.append_assoc, pieces_escapeChar, ih]
    simp

theorem join?_pieceOfs (row done : List Char) :
    join? done (row.map pieceOf) = some (done.reverse ++ row) := by
  induction row generalizing done with
  | nil => simp [join?]
  | cons c row ih =>
    rw [List.map_cons, join?_pieceOf, ih]
    simp

/-- **A string is read back from its text**, wherever that stands. -/
theorem run_string (text : String) (rest : List Char) :
    string.run (quoteText text ++ rest) = some (some text, rest) := by
  have hquote : ∀ tail, (char '"').run ('"' :: tail) = some ((), tail) := fun _ => rfl
  have hpieces : StateT.run (pieces []) (text.toList.flatMap escapeChar ++ '"' :: rest) =
      some (text.toList.map pieceOf, rest) := by
    exact pieces_escapeChars text.toList [] rest
  have hjoined : join? [] (text.toList.map pieceOf) = some text.toList := by
    simpa using join?_pieceOfs text.toList []
  rw [quoteText, List.cons_append, List.cons_append, List.append_assoc, List.singleton_append,
    string, run_bind_of_run (hquote _), run_bind_of_run hpieces, hjoined]
  show some (some (String.ofList text.toList), rest) = _
  rw [String.ofList_toList]

end Reader

open Reader in
/-- **The text of a string is that of no other string**, wherever it stands. -/
theorem quoteText_unique {text text' : String} {rest rest' : List Char}
    (h : quoteText text ++ rest = quoteText text' ++ rest') : text = text' ∧ rest = rest' := by
  have hboth := (run_string text rest).symm.trans (h ▸ run_string text' rest')
  simpa using hboth

end Supergraph.Json
