import Supergraph.Proofs.Language.Reading
import Supergraph.Schema.Grammar

/-!
# Definitions in front of others

A definition is over where the next one starts: no definition goes on with a word or a string that
can open another one. So what is read of a definition does not depend on the definitions that
follow it.

**The property** (`ContinuesAt`). If a parser reads something from a row of tokens, then in front of
further definitions it reads the same and leaves them, or it reads nothing at all. There is one rule
for each way to put parsers together; the grammar is gone through production by production. At the
end of the row a parser cannot tell what follows, so productions that look at the next token need
the row not to be empty, or a next token that opens no definition.

Nothing at all is read only behind a directive definition without locations. It is over only where
no word follows, and a word behind it is taken for a location.
-/

namespace Supergraph

/-! ## Tokens that open a definition -/

namespace Schema

/-- The words that a definition starts with. -/
def definitionWords : List String :=
  ["schema", "extend", "directive", "scalar", "type", "interface", "union", "enum", "input"]

end Schema

/-- Whether a definition can start with the token. -/
def Token.OpensDefinition : Token → Prop
  | .string _ => True
  | .name text => text ∈ Schema.definitionWords
  | _ => False

namespace Parser

variable {α β : Type}

/-- Whether the tokens are none or start like a definition. -/
def Opens (ts : List Token) : Prop := ∀ t ∈ ts.head?, t.OpensDefinition

theorem Opens.notNext {more : List Token} (h : Opens more) (s : Sign) : NotNext s more := by
  intro e
  exact h _ e

theorem NotNext.append {s : Sign} {ts more : List Token} (h : NotNext s ts) (hmore : Opens more) :
    NotNext s (ts ++ more) := by
  cases ts with
  | nil => exact hmore.notNext s
  | cons t ts => exact h

/-! ## Parsers that continue -/

/-- What `p` reads from `ts` it also reads in front of definitions, if it reads anything there. -/
def ContinuesAt (p : Parser α) (ts : List Token) : Prop :=
  ∀ a rest, p ts = .ok (a, rest) → rest <:+ ts ∧
    ∀ more, Opens more → ∀ read, p (ts ++ more) = .ok read → read = (a, rest ++ more)

/-- What `p` reads never depends on definitions that follow, if it reads anything. -/
abbrev Continues (p : Parser α) : Prop := ∀ ts, ContinuesAt p ts

section Rules

variable {p : Parser α} {f : α → Parser β} {ts : List Token}

theorem continuesAt_of_eq (h : ∀ a rest, p ts = .ok (a, rest) → rest <:+ ts ∧
    ∀ more, Opens more → p (ts ++ more) = .ok (a, rest ++ more)) : ContinuesAt p ts := by
  intro a rest hread
  obtain ⟨hsuffix, hmore⟩ := h a rest hread
  exact ⟨hsuffix, fun more hopens read h => Except.ok.inj (h.symm.trans (hmore more hopens))⟩

theorem continuesAt_pure {a : α} : ContinuesAt (pure a) ts := by
  refine continuesAt_of_eq fun b rest h => ?_
  obtain ⟨rfl, rfl⟩ := Prod.mk.injEq .. ▸ Except.ok.inj h
  exact ⟨List.suffix_rfl, fun _ _ => rfl⟩

theorem continuesAt_stuck : ContinuesAt (stuck : Parser α) ts := by
  intro a rest h
  cases h

theorem continuesAt_stuckAt {ks : List Token} : ContinuesAt (stuckAt ks : Parser α) ts := by
  intro a rest h
  cases h

theorem ContinuesAt.bind (hp : ContinuesAt p ts)
    (hf : ∀ a rest, p ts = .ok (a, rest) → ContinuesAt (f a) rest) :
    ContinuesAt (p >>= f) ts := by
  intro b rest h
  obtain ⟨a, mid, hread, hrest⟩ := bind_apply_eq_ok.1 h
  obtain ⟨hmid, hmore⟩ := hp a mid hread
  obtain ⟨hsuffix, hothers⟩ := hf a mid hread b rest hrest
  refine ⟨hsuffix.trans hmid, fun more hopens read hall => ?_⟩
  obtain ⟨a', mid', hread', hrest'⟩ := bind_apply_eq_ok.1 hall
  obtain ⟨rfl, rfl⟩ := Prod.mk.injEq .. ▸ hmore more hopens _ hread'
  exact hothers more hopens read hrest'

theorem Continues.bind (hp : Continues p) (hf : ∀ a, Continues (f a)) : Continues (p >>= f) :=
  fun ts => (hp ts).bind fun a rest _ => hf a rest

theorem ContinuesAt.ite {b : Bool} {q : Parser α} (hp : ContinuesAt p ts)
    (hq : ContinuesAt q ts) : ContinuesAt (if b then p else q) ts := by
  split_ifs
  · exact hp
  · exact hq

/-- A parser that reads nothing from the empty row. -/
theorem continues_of_cons (hnil : ∀ read, p [] ≠ .ok read)
    (hcons : ∀ t ts, ContinuesAt p (t :: ts)) : Continues p := by
  intro ts
  cases ts with
  | nil => exact fun a rest h => absurd h (hnil (a, rest))
  | cons t ts => exact hcons t ts

/-- A parser that uses the row only to say where it is stuck. -/
theorem continuesAt_get {g : List Token → Parser α}
    (hsame : ∀ k k' ts read, g k ts = .ok read → g k' ts = .ok read)
    (hg : ∀ k, ContinuesAt (g k) ts) : ContinuesAt (get >>= g) ts := by
  intro a rest h
  obtain ⟨hsuffix, hmore⟩ := hg ts a rest h
  exact ⟨hsuffix, fun more hopens read hall => hmore more hopens read (hsame _ ts _ _ hall)⟩

/-- A parser that is given the number of tokens as fuel. -/
theorem continuesAt_remaining {g : Nat → Parser α}
    (hmono : ∀ fuel k ts read, g fuel ts = .ok read → g (fuel + k) ts = .ok read)
    (hg : ∀ fuel, ContinuesAt (g fuel) ts) : ContinuesAt (remaining >>= g) ts := by
  intro a rest h
  refine ⟨(hg ts.length a rest h).1, fun more hopens read hall => ?_⟩
  have hall : g (ts ++ more).length (ts ++ more) = .ok read := hall
  rw [List.length_append] at hall
  exact (hg _ a rest (hmono ts.length more.length ts _ h)).2 more hopens read hall

end Rules

/-! ### Single tokens -/

section Tokens

variable {t : Token} {ts : List Token}

theorem continuesAt_skip : ContinuesAt skip (t :: ts) := by
  refine continuesAt_of_eq fun a rest h => ?_
  obtain ⟨-, rfl⟩ := Prod.mk.injEq .. ▸ Except.ok.inj h
  exact ⟨List.suffix_cons t ts, fun _ _ => rfl⟩

theorem continuesAt_peek : ContinuesAt peek (t :: ts) := by
  refine continuesAt_of_eq fun a rest h => ?_
  obtain ⟨rfl, rfl⟩ := Prod.mk.injEq .. ▸ Except.ok.inj h
  exact ⟨List.suffix_rfl, fun _ _ => rfl⟩

theorem continuesAt_nextIsWord {word : String} : ContinuesAt (nextIsWord word) (t :: ts) := by
  refine continuesAt_of_eq fun a rest h => ?_
  obtain ⟨rfl, rfl⟩ := Prod.mk.injEq .. ▸ Except.ok.inj h
  exact ⟨List.suffix_rfl, fun _ _ => rfl⟩

theorem continues_nextIs (s : Sign) : Continues (nextIs s) := by
  refine fun ts => continuesAt_of_eq fun a rest h => ?_
  obtain ⟨rfl, rfl⟩ := Prod.mk.injEq .. ▸ Except.ok.inj h
  refine ⟨List.suffix_rfl, fun more hopens => ?_⟩
  cases ts with
  | nil => exact nextIs_of_notNext (hopens.notNext s)
  | cons t ts => rfl

theorem continues_sign (s : Sign) : Continues (sign s) := by
  refine fun ts => continuesAt_of_eq fun a rest h => ?_
  unfold sign at h
  split at h
  · split_ifs at h with hs
    obtain ⟨-, rfl⟩ := Prod.mk.injEq .. ▸ Except.ok.inj h
    exact ⟨List.suffix_cons _ _, fun more _ => if_pos hs⟩
  · cases h

theorem continues_name : Continues name := by
  refine fun ts => continuesAt_of_eq fun a rest h => ?_
  unfold name at h
  split at h
  · obtain ⟨rfl, rfl⟩ := Prod.mk.injEq .. ▸ Except.ok.inj h
    exact ⟨List.suffix_cons _ _, fun _ _ => rfl⟩
  · cases h

theorem continues_keyword (word : String) : Continues (keyword word) := by
  refine fun ts => continuesAt_of_eq fun a rest h => ?_
  unfold keyword at h
  split at h
  · split_ifs at h with hword
    obtain ⟨-, rfl⟩ := Prod.mk.injEq .. ▸ Except.ok.inj h
    exact ⟨List.suffix_cons _ _, fun more _ => if_pos hword⟩
  · cases h

theorem continues_signIfNext (s : Sign) : Continues (signIfNext s) := by
  intro ts
  refine (continues_nextIs s ts).bind fun b rest h => ?_
  obtain ⟨hb, rfl⟩ := Prod.mk.injEq .. ▸ Except.ok.inj h
  cases b with
  | false => exact continuesAt_pure
  | true =>
    cases ts with
    | nil => cases hb
    | cons t ts => exact continuesAt_skip.bind fun _ _ _ => continuesAt_pure

/-- A word that opens no definition, and what follows depending on it. -/
theorem continues_word {word : String} (hword : word ∉ Schema.definitionWords)
    {f : Bool → Parser β} (htrue : ∀ t ts, ContinuesAt (f true) (t :: ts))
    (hfalse : Continues (f false)) : Continues (nextIsWord word >>= f) := by
  intro ts
  cases ts with
  | nil =>
    intro a rest h
    obtain ⟨hsuffix, hmore⟩ := hfalse [] a rest h
    refine ⟨hsuffix, fun more hopens read hall => ?_⟩
    have hnext : nextIsWord word more = .ok (false, more) := by
      rw [nextIsWord, decide_eq_false]
      exact fun e => hword (hopens _ e)
    rw [List.nil_append, bind_of_ok hnext] at hall
    exact hmore more hopens read hall
  | cons t ts =>
    refine continuesAt_nextIsWord.bind fun b rest h => ?_
    obtain ⟨-, rfl⟩ := Prod.mk.injEq .. ▸ Except.ok.inj h
    cases b with
    | true => exact htrue t ts
    | false => exact hfalse (t :: ts)

end Tokens

/-! ### Repetition -/

section Repetition

variable {item : Parser α} (hitem : Continues item)

theorem upTo_mono {close : Sign} {fuel k : Nat} {ts rest : List Token} {as : List α}
    (h : upTo close item fuel ts = .ok (as, rest)) :
    upTo close item (fuel + k) ts = .ok (as, rest) := by
  induction fuel generalizing ts as with
  | zero => cases h
  | succ fuel ih =>
    rw [Nat.add_right_comm]
    obtain ⟨b, mid, hnext, h⟩ := bind_apply_eq_ok.1 h
    rw [upTo, bind_of_ok hnext]
    cases b with
    | true => exact h
    | false =>
      obtain ⟨a, last, hread, h⟩ := bind_apply_eq_ok.1 h
      obtain ⟨as, others, hreads, h⟩ := bind_apply_eq_ok.1 h
      obtain ⟨rfl, rfl⟩ := Prod.mk.injEq .. ▸ Except.ok.inj h
      show (item >>= fun a => upTo close item (fuel + k) >>= fun as => pure (a :: as)) mid = _
      rw [bind_of_ok hread, bind_of_ok (ih hreads)]
      rfl

include hitem

theorem continues_upTo (close : Sign) (fuel : Nat) : Continues (upTo close item fuel) := by
  induction fuel with
  | zero => exact fun _ => continuesAt_stuck
  | succ fuel ih =>
    refine (continues_signIfNext close).bind fun _ _ => .ite continuesAt_pure ?_
    exact hitem.bind (fun _ => ih.bind fun _ _ => continuesAt_pure) _

theorem continues_upToRemaining (close : Sign) : Continues (remaining >>= upTo close item) :=
  fun ts => continuesAt_remaining (fun _ _ _ _ => upTo_mono) fun fuel =>
    continues_upTo hitem close fuel ts

theorem continues_bracketed (opening closing : Sign) :
    Continues (bracketed opening closing item) :=
  (continues_sign opening).bind fun _ => continues_upToRemaining hitem closing

theorem continues_bracketed1 (opening closing : Sign) :
    Continues (bracketed1 opening closing item) :=
  (continues_sign opening).bind fun _ => hitem.bind fun _ =>
    (continues_upToRemaining hitem closing).bind fun _ _ => continuesAt_pure

omit hitem

theorem whileNext_of_notNext {s : Sign} {ts : List Token} (h : NotNext s ts) (fuel : Nat) :
    whileNext s item fuel ts = .ok ([], ts) := by
  cases fuel with
  | zero => rfl
  | succ fuel =>
    rw [whileNext, bind_of_ok (nextIs_of_notNext h)]
    rfl

include hitem

/-- Items that take at least one token each are read the same with any fuel that is enough. -/
theorem whileNext_continues {s : Sign}
    (hshrinks : ∀ ts a rest, item ts = .ok (a, rest) → rest.length < ts.length) (fuel : Nat)
    {ts rest : List Token} {as : List α} (hfuel : ts.length ≤ fuel)
    (h : whileNext s item fuel ts = .ok (as, rest)) :
    rest <:+ ts ∧ ∀ more, Opens more → ∀ fuel, (ts ++ more).length ≤ fuel → ∀ read,
      whileNext s item fuel (ts ++ more) = .ok read → read = (as, rest ++ more) := by
  have hstop : ∀ {ts more : List Token} {fuel : Nat} {read}, NotNext s ts → Opens more →
      whileNext s item fuel (ts ++ more) = .ok read → read = ([], ts ++ more) :=
    fun hnext hopens hall =>
      Except.ok.inj (hall.symm.trans (whileNext_of_notNext (hnext.append hopens) _))
  induction fuel generalizing ts rest as with
  | zero =>
    obtain rfl := List.length_eq_zero_iff.1 (Nat.le_zero.1 hfuel)
    obtain ⟨rfl, rfl⟩ := Prod.mk.injEq .. ▸ Except.ok.inj h
    exact ⟨List.suffix_rfl, fun more hopens _ _ read hall =>
      hstop (fun e => by cases e) hopens hall⟩
  | succ fuel ih =>
    by_cases hnext : NotNext s ts
    · rw [whileNext_of_notNext hnext] at h
      obtain ⟨rfl, rfl⟩ := Prod.mk.injEq .. ▸ Except.ok.inj h
      exact ⟨List.suffix_rfl, fun more hopens _ _ read hall => hstop hnext hopens hall⟩
    · obtain ⟨ts, rfl⟩ := List.head?_eq_some_iff.1 (not_not.1 hnext)
      rw [whileNext, bind_of_ok nextIs_cons] at h
      obtain ⟨a, mid, hread, h⟩ := bind_apply_eq_ok.1 h
      obtain ⟨others, last, hreads, h⟩ := bind_apply_eq_ok.1 h
      obtain ⟨rfl, rfl⟩ := Prod.mk.injEq .. ▸ Except.ok.inj h
      obtain ⟨hmid, hmore⟩ := hitem _ a mid hread
      have hlength := hshrinks _ _ _ hread
      obtain ⟨hlast, hmores⟩ := ih (by omega) hreads
      -- The items are read as before, and what follows begins no further one.
      refine ⟨hlast.trans hmid, fun more hopens fuel hfuel read hall => ?_⟩
      rw [List.length_append] at hfuel
      cases fuel with
      | zero => simp at hfuel
      | succ fuel =>
        rw [List.cons_append, whileNext, bind_of_ok nextIs_cons, ← List.cons_append] at hall
        obtain ⟨a', mid', hread', hall⟩ := bind_apply_eq_ok.1 hall
        obtain ⟨rfl, rfl⟩ := Prod.mk.injEq .. ▸ hmore more hopens _ hread'
        obtain ⟨others', last', hreads', hall⟩ := bind_apply_eq_ok.1 hall
        obtain ⟨rfl, rfl⟩ := Prod.mk.injEq .. ▸ hmores more hopens fuel
          (by rw [List.length_append]; omega) _ hreads'
        exact (Except.ok.inj hall).symm

/-- Items that each start with the sign `s`. -/
theorem continues_manyFrom (s : Sign) :
    Continues (manyFrom s (sign s >>= fun _ => item)) := by
  have hall : Continues (sign s >>= fun _ => item) := (continues_sign s).bind fun _ => hitem
  have hshrinks : ∀ ts a rest, (sign s >>= fun _ => item) ts = .ok (a, rest) →
      rest.length < ts.length := by
    intro ts a rest h
    obtain ⟨u, mid, hsign, h⟩ := bind_apply_eq_ok.1 h
    have hrest := (hitem mid a rest h).1.length_le
    unfold sign at hsign
    split at hsign
    · split_ifs at hsign
      obtain ⟨-, rfl⟩ := Prod.mk.injEq .. ▸ Except.ok.inj hsign
      exact Nat.lt_succ_of_le hrest
    · cases hsign
  intro ts as rest h
  obtain ⟨hsuffix, hmore⟩ := whileNext_continues hall hshrinks ts.length le_rfl h
  exact ⟨hsuffix, fun more hopens => hmore more hopens _ le_rfl⟩

theorem continues_separated (separator : Sign) : Continues (separated separator item) :=
  hitem.bind fun _ => (continues_manyFrom hitem separator).bind fun _ _ => continuesAt_pure

end Repetition

theorem continues_nested {production : Nat → Parser α} (h : ∀ depth, Continues (production depth))
    (depth : Nat) : Continues (nested depth production) := by
  cases depth with
  | zero => exact fun _ => continuesAt_stuck
  | succ depth => exact h depth

theorem continues_optionalBlock {item : Nat → Parser α} (hitem : ∀ depth, Continues (item depth))
    (depth : Nat) (opening closing : Sign) :
    Continues (optionalBlock depth opening closing item) :=
  (continues_nextIs opening).bind fun _ ts => .ite
    (continues_nested (fun d => continues_bracketed1 (hitem d) opening closing) depth ts)
    continuesAt_pure

/-! ### Types, values and directives -/

theorem continues_nonNullIfNext (type : TypeRef) : Continues (nonNullIfNext type) :=
  (continues_signIfNext .bang).bind fun _ _ => .ite continuesAt_pure continuesAt_pure

theorem continues_typeRef (depth : Nat) : Continues (typeRef depth) := by
  have hnamed : Continues (name >>= fun name => nonNullIfNext (.named name)) :=
    continues_name.bind fun _ => continues_nonNullIfNext _
  induction depth with
  | zero => exact hnamed
  | succ depth ih =>
    refine (continues_signIfNext .openBracket).bind fun _ ts => .ite ?_ (hnamed ts)
    exact ih.bind (fun _ => (continues_sign .closeBracket).bind fun _ =>
      continues_nonNullIfNext _) ts

theorem continues_simpleValue : Continues simpleValue := by
  refine fun ts => continuesAt_of_eq fun a rest h => ?_
  unfold simpleValue at h
  split at h
  case h_5 => cases h
  all_goals
    obtain ⟨rfl, rfl⟩ := Prod.mk.injEq .. ▸ Except.ok.inj h
    exact ⟨List.suffix_cons _ _, fun _ _ => rfl⟩

theorem continues_member {value : Parser Value} (hvalue : Continues value) :
    Continues (member value) :=
  continues_name.bind fun _ => (continues_sign .colon).bind fun _ =>
    hvalue.bind fun _ _ => continuesAt_pure

/-- A variable, where they are allowed, or else what `other` reads. -/
theorem Continues.orVariable {other : Parser Value} (hother : Continues other) (allowed : Bool) :
    Continues (if allowed then do
      if ← signIfNext .dollar then return .variable (← name) else other
    else other) := by
  intro ts
  refine .ite ((continues_signIfNext .dollar).bind (fun _ ts => .ite ?_ (hother ts)) ts)
    (hother ts)
  exact continues_name.bind (fun _ _ => continuesAt_pure) ts

theorem continues_value (allowed : Bool) (depth : Nat) : Continues (value allowed depth) := by
  induction depth with
  | zero => exact continues_simpleValue.orVariable allowed
  | succ depth ih =>
    have hlist := continues_bracketed ih .openBracket .closeBracket
    have hobject := continues_bracketed (continues_member ih) .openBrace .closeBrace
    refine Continues.orVariable ?_ allowed
    refine (continues_nextIs .openBracket).bind fun _ ts => .ite
      (hlist.bind (fun _ _ => continuesAt_pure) ts) ?_
    exact (continues_nextIs .openBrace).bind (fun _ ts => .ite
      (hobject.bind (fun _ _ => continuesAt_pure) ts) (continues_simpleValue ts)) ts

theorem continues_arguments (depth : Nat) : Continues (arguments depth) :=
  continues_optionalBlock (fun d => continues_member (continues_value true d)) _ _ _

theorem continues_directives (depth : Nat) : Continues (directives depth) :=
  continues_manyFrom (continues_name.bind fun _ =>
    (continues_arguments depth).bind fun _ _ => continuesAt_pure) .at

end Parser

/-! ## Definitions -/

namespace Schema

open Supergraph.Parser

variable {α : Type} {t : Token} {ts : List Token}

/-! ### Parts of definitions -/

theorem continuesAt_description : ContinuesAt description (t :: ts) := by
  refine continuesAt_of_eq fun a rest h => ?_
  cases t <;>
  · obtain ⟨rfl, rfl⟩ := Prod.mk.injEq .. ▸ Except.ok.inj h
    exact ⟨by first | exact List.suffix_rfl | exact List.suffix_cons _ _, fun _ _ => rfl⟩

/-- What may be described does not start with a description alone. -/
theorem continues_described {f : Option String → Parser α}
    (hnil : ∀ read, (description >>= f) [] ≠ .ok read) (hf : ∀ a, Continues (f a)) :
    Continues (description >>= f) :=
  continues_of_cons hnil fun _ _ => continuesAt_description.bind fun a rest _ => hf a rest

theorem continues_default (depth : Nat) : Continues (default depth) :=
  (continues_signIfNext .equals).bind fun _ ts => .ite
    ((continues_value false depth).bind (fun _ _ => continuesAt_pure) ts) continuesAt_pure

theorem continues_inputField (depth : Nat) : Continues (inputField depth) := by
  refine continues_described (fun read h => by cases h) fun _ => ?_
  exact continues_name.bind fun _ => (continues_sign .colon).bind fun _ =>
    (continues_typeRef depth).bind fun _ => (continues_default depth).bind fun _ =>
      (continues_directives depth).bind fun _ _ => continuesAt_pure

theorem continues_argumentDefinitions (depth : Nat) : Continues (argumentDefinitions depth) :=
  continues_optionalBlock continues_inputField _ _ _

theorem continues_field (depth : Nat) : Continues (field depth) := by
  refine continues_described (fun read h => by cases h) fun _ => ?_
  exact continues_name.bind fun _ => (continues_argumentDefinitions depth).bind fun _ =>
    (continues_sign .colon).bind fun _ => (continues_typeRef depth).bind fun _ =>
      (continues_directives depth).bind fun _ _ => continuesAt_pure

theorem continues_enumValue (depth : Nat) : Continues (enumValue depth) := by
  refine continues_described (fun read h => by cases h) fun _ => ?_
  exact continues_name.bind fun _ =>
    (continues_directives depth).bind fun _ _ => continuesAt_pure

theorem continues_interfaces : Continues interfaces := by
  refine continues_word (by decide) (fun t ts => ?_) fun _ => continuesAt_pure
  exact continuesAt_skip.bind fun _ ts _ => (continues_signIfNext .ampersand).bind
    (fun _ => continues_separated continues_name .ampersand) ts

theorem continues_unionMembers : Continues unionMembers :=
  (continues_signIfNext .equals).bind fun _ ts => .ite
    ((continues_signIfNext .pipe).bind (fun _ => continues_separated continues_name .pipe) ts)
    continuesAt_pure

/-! ### Types -/

theorem continues_container (depth : Nat) (kind : ContainerKind) :
    Continues (container depth kind) :=
  continues_name.bind fun _ => continues_interfaces.bind fun _ =>
    (continues_directives depth).bind fun _ =>
      (continues_optionalBlock continues_field depth _ _).bind fun _ _ => continuesAt_pure

/-- A keyword that was seen, and what follows it. -/
theorem continuesAt_afterKeyword {p : Parser α} (hp : Continues p) :
    ContinuesAt (skip >>= fun _ => p) (t :: ts) :=
  continuesAt_skip.bind fun _ rest _ => hp rest

theorem continues_typeDeclaration (depth : Nat) : Continues (typeDeclaration depth) := by
  refine continues_of_cons (fun read h => by cases h) fun t ts => ?_
  have hname : ∀ f : String → List Directive → Parser TypeDeclaration,
      (∀ name directives, Continues (f name directives)) → ContinuesAt (skip >>= fun _ => name >>=
        fun name => directives depth >>= f name) (t :: ts) := fun f hf =>
    continuesAt_afterKeyword (continues_name.bind fun name =>
      (continues_directives depth).bind fun directives => hf name directives)
  refine continuesAt_peek.bind fun next rest h => ?_
  obtain ⟨-, rfl⟩ := Prod.mk.injEq .. ▸ Except.ok.inj h
  split
  · exact hname _ fun _ _ _ => continuesAt_pure
  · exact continuesAt_afterKeyword (continues_container depth .object)
  · exact continuesAt_afterKeyword (continues_container depth .interface)
  · exact hname _ fun _ _ => continues_unionMembers.bind fun _ _ => continuesAt_pure
  · exact hname _ fun _ _ => (continues_optionalBlock continues_enumValue depth _ _).bind
      fun _ _ => continuesAt_pure
  · exact hname _ fun _ _ => (continues_optionalBlock continues_inputField depth _ _).bind
      fun _ _ => continuesAt_pure
  · exact continuesAt_stuck

theorem continues_extension (depth : Nat) : Continues (extension depth) := by
  refine (continues_keyword "extend").bind fun _ ts => continuesAt_get ?_ fun k => ?_
  · intro k k' ts read h
    obtain ⟨declaration, mid, hread, h⟩ := bind_apply_eq_ok.1 h
    rw [bind_of_ok hread]
    split_ifs at h ⊢
    · exact h
    · cases h
  · exact (continues_typeDeclaration depth).bind
      (fun declaration ts => .ite continuesAt_pure continuesAt_stuckAt) ts

/-! ### The schema definition -/

theorem continues_schemaDefinition (depth : Nat) : Continues (schemaDefinition depth) := by
  intro ts
  refine continuesAt_get ?_ fun k => ?_
  · intro k k' ts read h
    obtain ⟨_, _, hkeyword, h⟩ := bind_apply_eq_ok.1 h
    obtain ⟨_, _, hdirectives, h⟩ := bind_apply_eq_ok.1 h
    obtain ⟨operations, _, hoperations, h⟩ := bind_apply_eq_ok.1 h
    rw [bind_of_ok hkeyword, bind_of_ok hdirectives, bind_of_ok hoperations]
    cases hroots : rootOperations? operations with
    | some roots =>
      simp only [hroots] at h ⊢
      exact h
    | none =>
      simp only [hroots] at h
      cases h
  · have hoperation : Continues (name >>= fun operation => sign .colon >>= fun _ =>
        name >>= fun type => pure (operation, type)) :=
      continues_name.bind fun _ => (continues_sign .colon).bind fun _ =>
        continues_name.bind fun _ _ => continuesAt_pure
    refine (continues_keyword "schema").bind (fun _ => (continues_directives depth).bind fun _ =>
      (continues_nested (fun _ => continues_bracketed hoperation _ _) depth).bind
        fun operations ts => ?_) ts
    cases rootOperations? operations with
    | some roots => exact continuesAt_pure
    | none => exact continuesAt_stuckAt

/-! ### Directive definitions -/

theorem continues_directiveLocation : Continues directiveLocation := by
  refine fun ts => continuesAt_of_eq fun a rest h => ?_
  unfold directiveLocation at h
  split at h
  · split_ifs at h with hlocation
    obtain ⟨rfl, rfl⟩ := Prod.mk.injEq .. ▸ Except.ok.inj h
    exact ⟨List.suffix_cons _ _, fun more _ => if_pos hlocation⟩
  · cases h

/-- No word that opens a definition is a location. -/
theorem directiveLocation_of_opens {more : List Token} (hopens : Opens more)
    {read : String × List Token} : directiveLocation more ≠ .ok read := by
  intro h
  unfold directiveLocation at h
  split at h
  next text ts =>
    have hnone : ∀ word ∈ definitionWords, directiveLocations.contains word = false := by decide
    rw [hnone text (hopens _ rfl)] at h
    cases h
  · cases h

theorem continues_locations : Continues locations := by
  refine (continues_signIfNext .pipe).bind fun bar ts => ?_
  cases ts with
  | nil =>
    intro a rest h
    -- Without a bar a location is only looked for, and what follows begins with none.
    cases bar with
    | true => cases h
    | false =>
      obtain ⟨rfl, rfl⟩ := Prod.mk.injEq .. ▸ Except.ok.inj h
      refine ⟨List.suffix_rfl, fun more hopens read hall => ?_⟩
      have hpeek : peek more = .ok (more.head?, more) := rfl
      rw [List.nil_append, bind_of_ok hpeek] at hall
      change _ ∈ {p : Parser (List String) | p more = .ok read} at hall
      split at hall
      · obtain ⟨first, mid, hread, -⟩ := bind_apply_eq_ok.1 hall
        exact absurd hread (directiveLocation_of_opens hopens)
      · exact (Except.ok.inj hall).symm
  | cons t ts =>
    refine continuesAt_peek.bind fun next rest h => ?_
    obtain ⟨-, rfl⟩ := Prod.mk.injEq .. ▸ Except.ok.inj h
    split
    · exact continues_separated continues_directiveLocation .pipe _
    · exact .ite continuesAt_stuck continuesAt_pure

theorem continues_directiveDefinition (depth : Nat) (description : Option String) :
    Continues (directiveDefinition depth description) := by
  refine (continues_keyword "directive").bind fun _ => (continues_sign .at).bind fun _ =>
    continues_name.bind fun name => (continues_argumentDefinitions depth).bind fun arguments => ?_
  have hrest : ∀ repeatable, Continues (keyword "on" >>= fun _ => locations >>= fun locations =>
      pure (⟨description, name, arguments, repeatable, locations⟩ : DirectiveDefinition)) :=
    fun repeatable => (continues_keyword "on").bind fun _ =>
      continues_locations.bind fun _ _ => continuesAt_pure
  exact continues_word (by decide) (fun t ts => continuesAt_afterKeyword (hrest true)) (hrest false)

/-! ### Definitions -/

theorem continuesAt_describedDefinition (depth : Nat) :
    ContinuesAt (describedDefinition depth) (t :: ts) := by
  refine continuesAt_description.bind fun description rest _ => ?_
  refine continues_of_cons (fun read h => by cases h) (fun t ts => ?_) rest
  refine continuesAt_nextIsWord.bind fun isDirective rest _ => .ite ?_ ?_
  · exact (continues_directiveDefinition depth description).bind
      (fun _ _ => continuesAt_pure) rest
  · exact (continues_typeDeclaration depth).bind (fun _ _ => continuesAt_pure) rest

/-- **A definition is read the same in front of others**, if anything is read there. -/
theorem continues_definition (depth : Nat) : Continues (definition depth) := by
  refine continues_of_cons (fun read h => by cases h) fun t ts => ?_
  refine continuesAt_nextIsWord.bind fun isSchema rest h => .ite
    (continues_schemaDefinition depth rest) ?_
  obtain ⟨-, rfl⟩ := Prod.mk.injEq .. ▸ Except.ok.inj h
  refine continuesAt_nextIsWord.bind fun isExtension rest h => .ite
    (continues_extension depth rest) ?_
  obtain ⟨-, rfl⟩ := Prod.mk.injEq .. ▸ Except.ok.inj h
  exact continuesAt_describedDefinition depth

/-- Where a type declaration starts, so does a definition. -/
theorem opensDefinition_of_typeDeclaration {depth : Nat} {read : TypeDeclaration}
    {rest : List Token} (h : typeDeclaration depth (t :: ts) = .ok (read, rest)) :
    t.OpensDefinition := by
  have hpeek : peek (t :: ts) = .ok (some t, t :: ts) := rfl
  rw [typeDeclaration, bind_of_ok hpeek] at h
  change _ ∈ {p : Parser TypeDeclaration | p (t :: ts) = .ok (read, rest)} at h
  split at h
  case h_7 => cases h
  all_goals
    next hnext =>
    obtain rfl := Option.some.inj hnext
    show _ ∈ definitionWords
    decide

/-- A definition starts with a string or with a word that opens definitions. -/
theorem opens_of_definition {depth : Nat} {rest : List Token} {read : Definition}
    (h : definition depth ts = .ok (read, rest)) : ∃ t ∈ ts.head?, t.OpensDefinition := by
  cases ts with
  | nil => cases h
  | cons t ts =>
    refine ⟨t, rfl, ?_⟩
    cases t with
    | string text => trivial
    | sign | int | float => cases h
    | name text =>
      have hnext : ∀ word, nextIsWord word (.name text :: ts) =
          .ok (decide (text = word), .name text :: ts) := by
        intro word
        simp [nextIsWord]
      have hword : ∀ word, decide (text = word) = true → word ∈ definitionWords →
          text ∈ definitionWords := fun word e hword => of_decide_eq_true e ▸ hword
      rw [definition, bind_of_ok (hnext _)] at h
      split_ifs at h with hschema
      · exact hword _ hschema (by decide)
      rw [bind_of_ok (hnext _)] at h
      split_ifs at h with hextend
      · exact hword _ hextend (by decide)
      -- A name is no description.
      have hnone : description (.name text :: ts) = .ok (none, .name text :: ts) := rfl
      rw [describedDefinition, bind_of_ok hnone, bind_of_ok (hnext _)] at h
      split_ifs at h with hdirective
      · exact hword _ hdirective (by decide)
      · obtain ⟨declaration, mid, hread, -⟩ := bind_apply_eq_ok.1 h
        exact opensDefinition_of_typeDeclaration hread

end Schema

end Supergraph
