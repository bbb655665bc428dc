import Supergraph.Proofs.Language.Reading

/-!
# Phrases

A grammar can be given without a parser. A `Phrase` says which rows of tokens write which things;
phrases are put one behind the other and in brackets, and the level of nesting that is left is
counted down as it is by the parsers.

A parser is compared with a phrase in both directions. Whatever it reads is written like that
(`Reads`), with one rule for each way to put parsers together. Conversely it reads all that is
written like that, in front of a rest that does not go on with it (`Takes`). Values, arguments and
directives are compared here.
-/

namespace Supergraph

/-- Which rows of tokens write which things. -/
abbrev Phrase (α : Type) : Type := List Token → α → Prop

namespace Phrase

variable {α : Type}

/-! ## Phrases put together -/

inductive Row (item : Phrase α) : Phrase (List α)
  | nil : Row item [] []
  | cons {ts us : List Token} {a : α} {as : List α} (first : item ts a) (rest : Row item us as) :
      Row item (ts ++ us) (a :: as)

/-- Any number of things in brackets. -/
inductive Bracketed (opening closing : Sign) (item : Phrase α) : Phrase (List α)
  | mk {ts : List Token} {as : List α} (inside : Row item ts as) :
      Bracketed opening closing item (.sign opening :: (ts ++ [.sign closing])) as

/-- One or more things in brackets. -/
def Bracketed1 (opening closing : Sign) (item : Phrase α) : Phrase (List α) :=
  fun ts as => Bracketed opening closing item ts as ∧ as ≠ []

/-- A phrase, or nothing at all. -/
inductive Optional (phrase : Phrase (List α)) : Phrase (List α)
  | absent : Optional phrase [] []
  | present {ts : List Token} {as : List α} (h : phrase ts as) : Optional phrase ts as

/-- What `production` writes with one level of nesting less, if a level is free. -/
def nested (depth : Nat) (production : Nat → Phrase α) : Phrase α :=
  match depth with
  | 0 => fun _ _ => False
  | depth + 1 => production depth

/-! ## Values and directives -/

/-- Variables, and values that are a single token. -/
inductive Simple : Phrase Value
  | dollar (name : String) : Simple [.sign .dollar, .name name] (.variable name)
  | name (text : String) : Simple [.name text] (Parser.valueOfName text)
  | int (n : Int) : Simple [.int n] (.int n)
  | float (x : Float64) : Simple [.float x] (.float x)
  | string (text : String) : Simple [.string text] (.string text)

inductive Member (value : Phrase Value) : Phrase (String × Value)
  | mk {key : String} {ts : List Token} {v : Value} (h : value ts v) :
      Member value (.name key :: .sign .colon :: ts) (key, v)

inductive Compound (value : Phrase Value) : Phrase Value
  | list {ts : List Token} {items : List Value}
      (h : Bracketed .openBracket .closeBracket value ts items) : Compound value ts (.list items)
  | object {ts : List Token} {members : List (String × Value)}
      (h : Bracketed .openBrace .closeBrace (Member value) ts members) :
      Compound value ts (.ofMembers members)

/-- Values in which variables may stand. -/
def value : Nat → Phrase Value
  | 0 => Simple
  | depth + 1 => fun ts v => Simple ts v ∨ Compound (value depth) ts v

/-- The arguments of a directive or of a selected field. -/
def arguments (depth : Nat) : Phrase (List (String × Value)) :=
  Optional (nested depth fun d => Bracketed1 .openParen .closeParen (Member (value d)))

inductive OneDirective (depth : Nat) : Phrase Directive
  | mk {name : String} {ts : List Token} {as : List (String × Value)} (h : arguments depth ts as) :
      OneDirective depth (.sign .at :: .name name :: ts) ⟨name, as⟩

def directives (depth : Nat) : Phrase (List Directive) := Row (OneDirective depth)

end Phrase

namespace Parser

variable {α β : Type}

/-! ## What is read is a phrase -/

/-- Whatever `p` reads is written as `phrase` says. -/
def Reads (p : Parser α) (phrase : Phrase α) : Prop :=
  ∀ ts a rest, p ts = .ok (a, rest) → ∃ us, ts = us ++ rest ∧ phrase us a

section Rules

variable {p : Parser α} {f : α → Parser β} {P Q : Phrase α} {R : Phrase β}

theorem reads_pure {a : α} (h : P [] a) : Reads (pure a) P := by
  intro ts b rest hread
  obtain ⟨rfl, rfl⟩ := Prod.mk.injEq .. ▸ Except.ok.inj hread
  exact ⟨[], rfl, h⟩

theorem Reads.imp (h : Reads p P) (himp : ∀ us a, P us a → Q us a) : Reads p Q := by
  intro ts a rest hread
  obtain ⟨us, hus, hP⟩ := h ts a rest hread
  exact ⟨us, hus, himp us a hP⟩

/-- What is read after a first phrase is put behind it. -/
theorem Reads.bind (hp : Reads p P) (hf : ∀ us a, P us a → Reads (f a) fun vs => R (us ++ vs)) :
    Reads (p >>= f) R := by
  intro ts b rest hread
  obtain ⟨a, mid, hfirst, hsecond⟩ := bind_apply_eq_ok.1 hread
  obtain ⟨us, rfl, hP⟩ := hp ts a mid hfirst
  obtain ⟨vs, rfl, hR⟩ := hf us a hP mid b rest hsecond
  exact ⟨us ++ vs, (List.append_assoc ..).symm, hR⟩

theorem reads_ite {c : Prop} [Decidable c] {q : Parser α} (hp : c → Reads p P)
    (hq : ¬ c → Reads q P) : Reads (if c then p else q) P := by
  split_ifs with hc
  · exact hp hc
  · exact hq hc

end Rules

/-! ### Single tokens -/

theorem reads_stuck {P : Phrase α} : Reads stuck P := by
  intro ts a rest hread
  cases hread

theorem reads_sign (s : Sign) : Reads (sign s) fun us _ => us = [.sign s] := by
  intro ts a rest hread
  unfold sign at hread
  split at hread
  · split_ifs at hread with hs
    obtain ⟨-, rfl⟩ := Prod.mk.injEq .. ▸ Except.ok.inj hread
    exact ⟨_, rfl, congrArg (fun s => [Token.sign s]) hs.symm⟩
  · cases hread

theorem reads_name : Reads name fun us text => us = [.name text] := by
  intro ts a rest hread
  unfold name at hread
  split at hread
  · obtain ⟨rfl, rfl⟩ := Prod.mk.injEq .. ▸ Except.ok.inj hread
    exact ⟨_, rfl, rfl⟩
  · cases hread

theorem reads_nextIs (s : Sign) : Reads (nextIs s) fun us _ => us = [] := by
  intro ts a rest hread
  obtain ⟨-, rfl⟩ := Prod.mk.injEq .. ▸ Except.ok.inj hread
  exact ⟨[], rfl, rfl⟩

theorem reads_remaining : Reads remaining fun us _ => us = [] := by
  intro ts a rest hread
  obtain ⟨-, rfl⟩ := Prod.mk.injEq .. ▸ Except.ok.inj hread
  exact ⟨[], rfl, rfl⟩

theorem reads_signIfNext (s : Sign) :
    Reads (signIfNext s) fun us taken => us = if taken then [.sign s] else [] := by
  intro ts a rest hread
  by_cases hnext : NotNext s ts
  · rw [signIfNext_of_notNext hnext] at hread
    obtain ⟨rfl, rfl⟩ := Prod.mk.injEq .. ▸ Except.ok.inj hread
    exact ⟨[], rfl, rfl⟩
  · obtain ⟨others, rfl⟩ := List.head?_eq_some_iff.1 (not_not.1 hnext)
    rw [signIfNext_cons] at hread
    obtain ⟨rfl, rfl⟩ := Prod.mk.injEq .. ▸ Except.ok.inj hread
    exact ⟨_, rfl, rfl⟩

/-! ### Repetition -/

section Repetition

variable {item : Parser α} {P : Phrase α} (hitem : Reads item P)

include hitem

theorem reads_whileNext (s : Sign) (fuel : Nat) : Reads (whileNext s item fuel) P.Row := by
  induction fuel with
  | zero => exact reads_pure .nil
  | succ fuel ih =>
    refine (reads_nextIs s).bind ?_
    rintro _ next rfl
    refine reads_ite (fun _ => ?_) fun _ => reads_pure .nil
    refine hitem.bind fun us a ha => ih.bind fun vs as has => reads_pure ?_
    simpa using Phrase.Row.cons ha has

theorem reads_upTo (close : Sign) (fuel : Nat) :
    Reads (upTo close item fuel) fun us as => ∃ vs, us = vs ++ [.sign close] ∧ P.Row vs as := by
  induction fuel with
  | zero => exact reads_stuck
  | succ fuel ih =>
    refine (reads_signIfNext close).bind ?_
    rintro _ taken rfl
    refine reads_ite (fun htaken => reads_pure ⟨[], ?_, .nil⟩) fun htaken => ?_
    · rw [if_pos htaken, List.append_nil, List.nil_append]
    · rw [if_neg htaken]
      refine hitem.bind fun us a ha => ih.bind ?_
      rintro _ as ⟨vs, rfl, has⟩
      exact reads_pure ⟨us ++ vs, by simp, .cons ha has⟩

theorem reads_manyFrom (s : Sign) : Reads (manyFrom s item) P.Row := by
  refine reads_remaining.bind ?_
  rintro _ fuel rfl
  exact reads_whileNext hitem s fuel

theorem reads_bracketed (opening closing : Sign) :
    Reads (bracketed opening closing item) (P.Bracketed opening closing) := by
  refine (reads_sign opening).bind ?_
  rintro _ _ rfl
  refine reads_remaining.bind ?_
  rintro _ fuel rfl
  refine (reads_upTo hitem closing fuel).imp ?_
  rintro _ as ⟨us, rfl, has⟩
  exact .mk has

theorem reads_bracketed1 (opening closing : Sign) :
    Reads (bracketed1 opening closing item) (P.Bracketed1 opening closing) := by
  refine (reads_sign opening).bind ?_
  rintro _ _ rfl
  refine hitem.bind fun us a ha => reads_remaining.bind ?_
  rintro _ fuel rfl
  refine (reads_upTo hitem closing fuel).bind ?_
  rintro _ as ⟨vs, rfl, has⟩
  have hall : P.Bracketed opening closing
      (.sign opening :: ((us ++ vs) ++ [.sign closing])) (a :: as) := .mk (.cons ha has)
  exact reads_pure ⟨by simpa using hall, List.cons_ne_nil a as⟩

end Repetition

theorem reads_nested {production : Nat → Parser α} {P : Nat → Phrase α}
    (h : ∀ d, Reads (production d) (P d)) (depth : Nat) :
    Reads (nested depth production) (Phrase.nested depth P) := by
  cases depth with
  | zero => exact reads_stuck
  | succ depth => exact h depth

/-- A phrase that is there if its first sign comes next. -/
theorem reads_ifNext {p : Parser (List α)} {P : Phrase (List α)} (h : Reads p P) (s : Sign) :
    Reads (nextIs s >>= fun next => if next then p else pure []) P.Optional := by
  refine (reads_nextIs s).bind ?_
  rintro _ next rfl
  exact reads_ite (fun _ => h.imp fun _ _ => .present) fun _ => reads_pure .absent

/-! ### Values and directives -/

theorem reads_simpleValue : Reads simpleValue Phrase.Simple := by
  intro ts a rest hread
  unfold simpleValue at hread
  split at hread
  case h_5 => cases hread
  all_goals
    obtain ⟨rfl, rfl⟩ := Prod.mk.injEq .. ▸ Except.ok.inj hread
    exact ⟨[_], rfl, by constructor⟩

/-- A variable, or else what `other` reads. -/
theorem Reads.orVariable {other : Parser Value} {P : Phrase Value} (hother : Reads other P)
    (hvariable : ∀ ts v, Phrase.Simple ts v → P ts v) :
    Reads (signIfNext .dollar >>= fun dollar =>
      if dollar then name >>= fun text => pure (.variable text) else other) P := by
  refine (reads_signIfNext .dollar).bind ?_
  rintro _ dollar rfl
  refine reads_ite (fun hdollar => ?_) fun hdollar => ?_
  · rw [if_pos hdollar]
    refine reads_name.bind ?_
    rintro _ text rfl
    exact reads_pure (hvariable _ _ (.dollar text))
  · rw [if_neg hdollar]
    exact hother

theorem reads_member {value : Parser Value} {P : Phrase Value} (hvalue : Reads value P) :
    Reads (member value) (Phrase.Member P) := by
  refine reads_name.bind ?_
  rintro _ key rfl
  refine (reads_sign .colon).bind ?_
  rintro _ _ rfl
  refine hvalue.bind fun us v hv => reads_pure ?_
  rw [List.append_nil]
  exact .mk hv

theorem reads_value (depth : Nat) : Reads (value true depth) (Phrase.value depth) := by
  induction depth with
  | zero => exact reads_simpleValue.orVariable fun _ _ h => h
  | succ depth ih =>
    refine Reads.orVariable ?_ fun _ _ => .inl
    refine (reads_nextIs .openBracket).bind ?_
    rintro _ isList rfl
    refine reads_ite (fun _ => ?_) fun _ => ?_
    · refine (reads_bracketed ih .openBracket .closeBracket).bind fun us items h => reads_pure ?_
      rw [List.append_nil]
      exact .inr (.list h)
    · refine (reads_nextIs .openBrace).bind ?_
      rintro _ isObject rfl
      refine reads_ite (fun _ => ?_) fun _ => reads_simpleValue.imp fun _ _ => .inl
      refine (reads_bracketed (reads_member ih) .openBrace .closeBrace).bind
        fun us members h => reads_pure ?_
      rw [List.append_nil]
      exact .inr (.object h)

theorem reads_arguments (depth : Nat) : Reads (arguments depth) (Phrase.arguments depth) :=
  reads_ifNext (reads_nested (fun d => reads_bracketed1 (reads_member (reads_value d)) _ _) depth) _

theorem reads_directives (depth : Nat) : Reads (directives depth) (Phrase.directives depth) := by
  refine reads_manyFrom ?_ .at
  refine (reads_sign .at).bind ?_
  rintro _ _ rfl
  refine reads_name.bind ?_
  rintro _ name rfl
  refine (reads_arguments depth).bind fun us as h => reads_pure ?_
  rw [List.append_nil]
  exact .mk h

/-! ## Phrases are read -/

/-- In front of a rest that is `ready`, `p` reads whatever `phrase` writes and leaves the rest. -/
def Takes (p : Parser α) (phrase : Phrase α) (ready : List Token → Prop) : Prop :=
  ∀ us a rest, phrase us a → ready rest → p (us ++ rest) = .ok (a, rest)

/-- Things that can stand one behind the other up to the sign `close`: each of them starts with
another token, and what follows is ready for the one before. -/
structure Delimited (phrase : Phrase α) (ready : List Token → Prop) (close : Sign) : Prop where
  starts : ∀ us a rest, phrase us a → NotNext close (us ++ rest)
  next : ∀ us a rest, phrase us a → ready (us ++ rest)
  last : ∀ rest, ready (.sign close :: rest)

section Rows

variable {item : Parser α} {P : Phrase α} {ready : List Token → Prop} {close : Sign}
  {us : List Token} {as : List α}

theorem Delimited.ne_nil (h : Delimited P ready close) : ∀ us a, P us a → us ≠ [] := by
  rintro _ a ha rfl
  exact h.starts [] a [.sign close] ha rfl

theorem length_le_of_row (hne : ∀ us a, P us a → us ≠ []) (hrow : P.Row us as) :
    as.length ≤ us.length := by
  induction hrow with
  | nil => exact le_rfl
  | cons first _ ih =>
    have hpos := List.length_pos_of_ne_nil (hne _ _ first)
    rw [List.length_cons, List.length_append]
    omega

theorem Delimited.ready_row (h : Delimited P ready close) (hrow : P.Row us as)
    (rest : List Token) : ready (us ++ .sign close :: rest) := by
  cases hrow with
  | nil => exact h.last rest
  | cons first _ =>
    rw [List.append_assoc]
    exact h.next _ _ _ first

variable (hitem : Takes item P ready) (h : Delimited P ready close)

include hitem h

theorem upTo_row (hrow : P.Row us as) (rest : List Token) {fuel : Nat} (hfuel : as.length < fuel) :
    upTo close item fuel (us ++ .sign close :: rest) = .ok (as, rest) := by
  induction hrow generalizing fuel with
  | nil =>
    obtain ⟨fuel, rfl⟩ := Nat.exists_eq_add_one_of_ne_zero (Nat.ne_of_gt hfuel)
    exact upTo_close
  | @cons ts us a as first others ih =>
    obtain ⟨fuel, rfl⟩ := Nat.exists_eq_add_one_of_ne_zero (Nat.ne_of_gt (Nat.zero_lt_of_lt hfuel))
    rw [List.append_assoc]
    exact upTo_cons (h.starts _ _ _ first) (hitem _ _ _ first (h.ready_row others rest))
      (ih (Nat.lt_of_succ_lt_succ hfuel))

theorem takes_bracketed (opening : Sign) :
    Takes (bracketed opening close item) (P.Bracketed opening close) fun _ => True := by
  rintro _ as rest ⟨hrow⟩ -
  rename_i us
  have hlength := length_le_of_row h.ne_nil hrow
  rw [List.cons_append, List.append_assoc, bracketed, bind_of_ok sign_cons]
  exact upTo_row hitem h hrow rest (by simp; omega)

theorem takes_bracketed1 (opening : Sign) :
    Takes (bracketed1 opening close item) (P.Bracketed1 opening close) fun _ => True := by
  rintro _ as rest ⟨⟨hrow⟩, hne⟩ -
  cases hrow with
  | nil => exact absurd rfl hne
  | @cons ts us a as first others =>
    have hlength := length_le_of_row h.ne_nil others
    rw [List.cons_append, List.append_assoc, List.append_assoc]
    exact bracketed1_cons (hitem _ _ _ first (h.ready_row others rest))
      (upTo_row hitem h others rest (by simp; omega))

end Rows

theorem takes_nested {production : Nat → Parser α} {P : Nat → Phrase α}
    {ready : List Token → Prop} (h : ∀ d, Takes (production d) (P d) ready) (depth : Nat) :
    Takes (nested depth production) (Phrase.nested depth P) ready := by
  cases depth with
  | zero => exact fun _ _ _ hphrase => hphrase.elim
  | succ depth => exact h depth

/-- Something in brackets is there exactly if its first sign comes next. -/
theorem takes_ifNext {p : Parser (List α)} {P : Phrase (List α)} {s : Sign}
    (h : Takes p P fun _ => True) (hstarts : ∀ us as, P us as → us.head? = some (.sign s)) :
    Takes (nextIs s >>= fun next => if next then p else pure []) P.Optional (NotNext s) := by
  rintro us as rest hphrase hready
  cases hphrase with
  | absent =>
    rw [List.nil_append, bind_of_ok (nextIs_of_notNext hready)]
    rfl
  | present hphrase =>
    obtain ⟨ts, rfl⟩ := List.head?_eq_some_iff.1 (hstarts us as hphrase)
    rw [List.cons_append, bind_of_ok nextIs_cons]
    exact h _ _ _ hphrase trivial

/-! ### Values and directives -/

theorem delimited_member {P : Phrase Value} (close : Sign) :
    Delimited (Phrase.Member P) (fun _ => True) close where
  starts := by
    rintro _ _ rest ⟨h⟩
    simp [NotNext]
  next _ _ _ _ := trivial
  last _ := trivial

theorem delimited_value (depth : Nat) :
    Delimited (Phrase.value depth) (fun _ => True) .closeBracket where
  starts := by
    intro us v rest h
    have hsimple : Phrase.Simple us v → NotNext .closeBracket (us ++ rest) := by
      rintro (_ | _ | _ | _ | _) <;> simp [NotNext]
    cases depth with
    | zero => exact hsimple h
    | succ depth =>
      rcases h with h | ⟨⟨h⟩⟩ | ⟨⟨h⟩⟩
      · exact hsimple h
      · simp [NotNext]
      · simp [NotNext]
  next _ _ _ _ := trivial
  last _ := trivial

theorem takes_member {value : Parser Value} {P : Phrase Value}
    (hvalue : Takes value P fun _ => True) :
    Takes (member value) (Phrase.Member P) fun _ => True := by
  rintro _ _ rest ⟨h⟩ -
  rename_i key ts v
  have hname : name (.name key :: .sign .colon :: (ts ++ rest)) = .ok (key, _) := rfl
  rw [List.cons_append, List.cons_append, member, bind_of_ok hname, bind_of_ok sign_cons,
    bind_of_ok (hvalue _ _ _ h trivial)]
  rfl

/-- A simple value is read if `other` reads those that are no variable. -/
theorem orVariable_of_simple {other : Parser Value} {us : List Token} {v : Value}
    (h : Phrase.Simple us v) (rest : List Token)
    (hother : (∀ s, NotNext s (us ++ rest)) → other (us ++ rest) = simpleValue (us ++ rest)) :
    (signIfNext .dollar >>= fun dollar =>
      if dollar then name >>= fun text => pure (.variable text) else other) (us ++ rest) =
        .ok (v, rest) := by
  cases h with
  | dollar text =>
    rw [List.cons_append, bind_of_ok signIfNext_cons]
    rfl
  | name | int | float | string =>
    rw [bind_of_ok (signIfNext_of_notNext (by simp [NotNext]))]
    exact hother (by simp [NotNext])

theorem orVariable_of_sign {other : Parser Value} {s : Sign} (hs : s ≠ .dollar)
    (ts : List Token) :
    (signIfNext .dollar >>= fun dollar =>
      if dollar then name >>= fun text => pure (.variable text) else other) (.sign s :: ts) =
        other (.sign s :: ts) := by
  rw [bind_of_ok (signIfNext_of_notNext (by simpa [NotNext] using hs))]
  rfl

theorem value_succ (depth : Nat) : value true (depth + 1) =
    (signIfNext .dollar >>= fun dollar =>
      if dollar then name >>= fun text => pure (.variable text)
      else nextIs .openBracket >>= fun isList =>
        if isList then bracketed .openBracket .closeBracket (value true depth) >>= fun items =>
          pure (.list items)
        else nextIs .openBrace >>= fun isObject =>
          if isObject then
            bracketed .openBrace .closeBrace (member (value true depth)) >>= fun members =>
              pure (.ofMembers members)
          else simpleValue) := rfl

theorem takes_value (depth : Nat) :
    Takes (value true depth) (Phrase.value depth) fun _ => True := by
  induction depth with
  | zero => exact fun us v rest h _ => orVariable_of_simple h rest fun _ => rfl
  | succ depth ih =>
    intro us v rest h _
    rw [value_succ]
    rcases h with h | ⟨⟨h⟩⟩ | ⟨⟨h⟩⟩
    · refine orVariable_of_simple h rest fun hnext => ?_
      rw [bind_of_ok (nextIs_of_notNext (hnext _)), if_neg Bool.false_ne_true,
        bind_of_ok (nextIs_of_notNext (hnext _)), if_neg Bool.false_ne_true]
    · have hlist := takes_bracketed ih (delimited_value depth) .openBracket _ _ rest (.mk h) trivial
      rw [List.cons_append] at hlist ⊢
      rw [orVariable_of_sign (by decide), bind_of_ok nextIs_cons, if_pos rfl, bind_of_ok hlist]
      rfl
    · have hobject := takes_bracketed (takes_member ih) (delimited_member .closeBrace)
        .openBrace _ _ rest (.mk h) trivial
      rw [List.cons_append] at hobject ⊢
      rw [orVariable_of_sign (by decide), bind_of_ok (nextIs_of_notNext (by simp [NotNext])),
        if_neg Bool.false_ne_true, bind_of_ok nextIs_cons, if_pos rfl, bind_of_ok hobject]
      rfl

theorem head?_bracketed1 {item : Phrase α} {opening closing : Sign} {us : List Token} {as : List α}
    (h : item.Bracketed1 opening closing us as) : us.head? = some (.sign opening) := by
  obtain ⟨⟨_⟩, -⟩ := h
  rfl

theorem takes_arguments (depth : Nat) :
    Takes (arguments depth) (Phrase.arguments depth) (NotNext .openParen) := by
  refine takes_ifNext (takes_nested (fun d => ?_) depth) fun us as h => ?_
  · exact takes_bracketed1 (takes_member (takes_value d)) (delimited_member _) .openParen
  · cases depth with
    | zero => exact h.elim
    | succ depth => exact head?_bracketed1 h

/-- A directive is over where another one starts. -/
theorem takes_directive (depth : Nat) :
    Takes (do
      sign .at
      let name ← name
      return ⟨name, ← arguments depth⟩) (Phrase.OneDirective depth) (NotNext .openParen) := by
  rintro _ _ rest ⟨h⟩ hready
  rename_i text ts as
  have hname : name (.name text :: (ts ++ rest)) = .ok (text, ts ++ rest) := rfl
  rw [List.cons_append, List.cons_append, bind_of_ok sign_cons, bind_of_ok hname,
    bind_of_ok (takes_arguments depth _ _ _ h hready)]
  rfl

/-- Items that each start with the sign `s` are read up to a rest that does not. -/
theorem whileNext_row {item : Parser α} {P : Phrase α} {ready : List Token → Prop} {s : Sign}
    (hitem : Takes item P ready) (hstarts : ∀ us a, P us a → us.head? = some (.sign s))
    (hready : ∀ ts, ready (.sign s :: ts)) {us : List Token} {as : List α} (hrow : P.Row us as)
    {rest : List Token} (hrest : ready rest) (hnext : NotNext s rest) {fuel : Nat}
    (hfuel : as.length ≤ fuel) : whileNext s item fuel (us ++ rest) = .ok (as, rest) := by
  induction hrow generalizing fuel with
  | nil =>
    cases fuel with
    | zero => rfl
    | succ fuel =>
      rw [List.nil_append, whileNext, bind_of_ok (nextIs_of_notNext hnext)]
      rfl
  | @cons ts us a as first others ih =>
    obtain ⟨fuel, rfl⟩ := Nat.exists_eq_add_one_of_ne_zero (Nat.ne_of_gt (Nat.zero_lt_of_lt hfuel))
    -- Behind an item comes the next one, which begins with `s`, or the rest.
    have hmid : ready (us ++ rest) := by
      cases others with
      | nil => exact hrest
      | cons second _ =>
        obtain ⟨ts, rfl⟩ := List.head?_eq_some_iff.1 (hstarts _ _ second)
        exact hready _
    have hfirst := hitem _ _ _ first hmid
    obtain ⟨ts, rfl⟩ := List.head?_eq_some_iff.1 (hstarts _ _ first)
    rw [List.append_assoc, List.cons_append, whileNext, bind_of_ok nextIs_cons]
    refine (bind_of_ok hfirst).trans ?_
    rw [bind_of_ok (ih (Nat.le_of_succ_le_succ hfuel))]
    rfl

theorem takes_directives (depth : Nat) :
    Takes (directives depth) (Phrase.directives depth)
      fun ts => NotNext .at ts ∧ NotNext .openParen ts := by
  rintro us as rest hrow ⟨hat, hparen⟩
  have hstarts : ∀ us d, Phrase.OneDirective depth us d → us.head? = some (.sign .at) := by
    rintro _ _ ⟨_⟩
    rfl
  have hne : ∀ us d, Phrase.OneDirective depth us d → us ≠ [] := by
    rintro _ _ ⟨_⟩
    exact List.cons_ne_nil _ _
  have hlength : as.length ≤ (us ++ rest).length :=
    (length_le_of_row hne hrow).trans (by simp)
  exact whileNext_row (takes_directive depth) hstarts (fun ts => by simp [NotNext]) hrow hparen hat
    hlength

end Parser

end Supergraph
