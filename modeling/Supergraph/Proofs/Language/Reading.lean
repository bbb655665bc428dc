import Supergraph.Proofs.Language.Lexing
import Supergraph.Proofs.Results
import Supergraph.Query.Grammar

/-!
# What parsers read

Equations for the tokens that a production starts with: what is read there, or that nothing is. A
whole text is read by reading its tokens (`runOn_eq_ok_iff`).
-/

namespace Supergraph.Parser

variable {α β : Type}

theorem bind_apply (p : Parser α) (f : α → Parser β) (ts : List Token) :
    (p >>= f) ts = p ts >>= fun read => f read.1 read.2 := rfl

theorem bind_apply_eq_ok {p : Parser α} {f : α → Parser β} {ts rest : List Token} {b : β} :
    (p >>= f) ts = .ok (b, rest) ↔ ∃ a mid, p ts = .ok (a, mid) ∧ f a mid = .ok (b, rest) := by
  rw [bind_apply, bind_eq_ok, Prod.exists]

/-! ## What is read where -/

section Equations

variable {s : Sign} {ts rest : List Token}

/-- What comes next is not the sign `s`. -/
def NotNext (s : Sign) (ts : List Token) : Prop := ts.head? ≠ some (.sign s)

theorem bind_of_ok {p : Parser α} {f : α → Parser β} {a : α} (h : p ts = .ok (a, rest)) :
    (p >>= f) ts = f a rest := by
  rw [bind_apply, h, ok_bind]

theorem nextIs_of_notNext (h : NotNext s ts) : nextIs s ts = .ok (false, ts) := by
  rw [nextIs, decide_eq_false h]

theorem signIfNext_of_notNext (h : NotNext s ts) : signIfNext s ts = .ok (false, ts) :=
  bind_of_ok (nextIs_of_notNext h)

theorem nextIs_cons : nextIs s (.sign s :: ts) = .ok (true, .sign s :: ts) := by
  simp [nextIs]

theorem signIfNext_cons : signIfNext s (.sign s :: ts) = .ok (true, ts) := by
  rw [signIfNext, bind_of_ok nextIs_cons]
  rfl

theorem sign_cons : sign s (.sign s :: ts) = .ok ((), ts) := if_pos rfl

variable {item : Parser α} {a : α} {as : List α} {mid : List Token} {fuel : Nat}

theorem upTo_close : upTo s item (fuel + 1) (.sign s :: ts) = .ok ([], ts) := by
  rw [upTo, bind_of_ok signIfNext_cons]
  rfl

theorem upTo_cons (hnext : NotNext s ts) (hitem : item ts = .ok (a, mid))
    (hitems : upTo s item fuel mid = .ok (as, rest)) :
    upTo s item (fuel + 1) ts = .ok (a :: as, rest) := by
  rw [upTo, bind_of_ok (signIfNext_of_notNext hnext)]
  show (item >>= fun a => upTo s item fuel >>= fun as => pure (a :: as)) ts = _
  rw [bind_of_ok hitem, bind_of_ok hitems]
  rfl

theorem bracketed1_cons {opening closing : Sign} (hitem : item ts = .ok (a, mid))
    (hitems : upTo closing item mid.length mid = .ok (as, rest)) :
    bracketed1 opening closing item (.sign opening :: ts) = .ok (a :: as, rest) := by
  rw [bracketed1, bind_of_ok sign_cons, bind_of_ok hitem,
    show (remaining >>= fun fuel => upTo closing item fuel >>= fun as => pure (a :: as)) mid =
      (upTo closing item mid.length >>= fun as => pure (a :: as)) mid from rfl, bind_of_ok hitems]
  rfl

end Equations

/-! ## Whole texts -/

/-- Reading a text is reading all its tokens. -/
theorem runOn_eq_ok_iff {parser : Parser α} {text : String} {a : α} :
    parser.runOn text = .ok a ↔ ∃ ts, Lexer.Splits text.toList ts ∧ parser ts = .ok (a, []) := by
  constructor
  · intro h
    unfold runOn at h
    simp only [StateT.run] at h
    split at h
    next b hparser =>
      split_ifs at h with hcomplete
      obtain rfl := Except.ok.inj h
      exact ⟨_, Lexer.splits_of_complete _ _ _ hcomplete, hparser⟩
    · cases h
    · cases h
  · rintro ⟨ts, hsplits, hparser⟩
    obtain ⟨htokens, hcomplete⟩ := Lexer.scan_of_splits hsplits
    simp only [runOn, StateT.run, htokens, hparser, hcomplete, if_true]

end Supergraph.Parser
