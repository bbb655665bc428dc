import Supergraph.Proofs.Language.Phrases

/-!
# Selections as they are written

A field selection is a name, behind its label if it has one, with arguments, directives and a
selection set; the other selections start with `...`. A selection set is a row of one or more
selections in braces.

**Theorem (`selectionSet_eq_ok_iff`).** Selection sets are read exactly as they are written,
whatever follows them.

A selection goes on as long as it can, so it is over in front of a token that none of its parts
starts with (`EndsSelection`). Every selection is such a place for the one before it.
-/

namespace Supergraph

namespace Phrase

/-- The tokens of a label. -/
def labelTokens : Option String → List Token
  | none => []
  | some label => [.name label, .sign .colon]

/-- The tokens of the type that a fragment selects from. -/
def typeTokens : Option String → List Token
  | none => []
  | some type => [.name "on", .name type]

/-- An item of a selection set, given how nested selections are written. -/
inductive OneSelection (depth : Nat) (block : Phrase (List Selection)) : Phrase Selection
  | field {ats dts sts : List Token} {as : List (String × Value)} {ds : List Directive}
      {selections : List Selection} (label : Option String) (name : String)
      (harguments : arguments depth ats as) (hdirectives : directives depth dts ds)
      (hselections : Optional block sts selections) :
      OneSelection depth block (labelTokens label ++ .name name :: (ats ++ (dts ++ sts)))
        (.field label name as ds selections)
  | spread {dts : List Token} {ds : List Directive} {name : String} (hname : name ≠ "on")
      (hdirectives : directives depth dts ds) :
      OneSelection depth block (.sign .spread :: .name name :: dts) (.spread name ds)
  | fragment {dts sts : List Token} {ds : List Directive} {selections : List Selection}
      (type : Option String) (hdirectives : directives depth dts ds)
      (hselections : block sts selections) :
      OneSelection depth block (.sign .spread :: (typeTokens type ++ (dts ++ sts)))
        (.fragment type ds selections)

/-- One or more selections in braces. -/
def selectionSet : Nat → Phrase (List Selection)
  | 0 => fun _ _ => False
  | depth + 1 => Bracketed1 .openBrace .closeBrace (OneSelection depth (selectionSet depth))

/-- Any number of selections, without braces around them. -/
def selections (depth : Nat) : Phrase (List Selection) :=
  Row (OneSelection depth (selectionSet depth))

end Phrase

namespace Query

open Supergraph.Parser

variable {depth : Nat} {block : Parser (List Selection)} {P : Phrase (List Selection)}
  {text : String} {ts : List Token}

/-! ## Selections behind dots -/

theorem peek_apply : peek ts = .ok (ts.head?, ts) := rfl

theorem fragmentSelection_on :
    fragmentSelection depth block (.name "on" :: ts) =
      (name >>= fun type => directives depth >>= fun ds => block >>= fun selections =>
        pure (Selection.fragment (some type) ds selections)) ts := rfl

theorem fragmentSelection_name (h : text ≠ "on") :
    fragmentSelection depth block (.name text :: ts) =
      (directives depth >>= fun ds => pure (Selection.spread text ds)) ts := by
  rw [fragmentSelection, bind_of_ok peek_apply]
  refine congrFun (g := skip >>= fun _ => directives depth >>= fun ds =>
    pure (Selection.spread text ds)) ?_ (.name text :: ts)
  dsimp only [List.head?_cons]
  split
  next e => exact absurd (Token.name.inj (Option.some.inj e)) h
  next e =>
    cases e
    rfl
  next hother => exact absurd rfl (hother text)

theorem fragmentSelection_other (h : ∀ text, ts.head? ≠ some (.name text)) :
    fragmentSelection depth block ts =
      (directives depth >>= fun ds => block >>= fun selections =>
        pure (Selection.fragment none ds selections)) ts := by
  rw [fragmentSelection, bind_of_ok peek_apply]
  rcases ts with _ | ⟨t, ts⟩
  · rfl
  · cases t with
    | name text => exact absurd rfl (h text)
    | _ => rfl

/-! ## What is read is a selection -/

theorem reads_label (first : String) :
    Reads (do
      if ← signIfNext .colon then return (some first, ← name) else return (none, first))
      fun us (read : Option String × String) =>
        .name first :: us = Phrase.labelTokens read.1 ++ [.name read.2] := by
  refine (reads_signIfNext .colon).bind ?_
  rintro _ labelled rfl
  refine reads_ite (fun hlabelled => ?_) fun hlabelled => ?_
  · rw [if_pos hlabelled]
    refine reads_name.bind ?_
    rintro _ name rfl
    exact reads_pure rfl
  · rw [if_neg hlabelled]
    exact reads_pure rfl

section Blocks

variable (hblock : Reads block P)

include hblock

theorem reads_fieldSelection : Reads (fieldSelection depth block) (P.OneSelection depth) := by
  refine reads_name.bind ?_
  rintro _ first rfl
  refine (reads_label first).bind ?_
  rintro us ⟨label, name⟩ hlabel
  refine (reads_arguments depth).bind fun ats as has => ?_
  refine (reads_directives depth).bind fun dts ds hds => ?_
  refine (reads_ifNext hblock .openBrace).bind fun sts selections hselections => reads_pure ?_
  have htokens : [.name first] ++ (us ++ (ats ++ (dts ++ (sts ++ [])))) =
      Phrase.labelTokens label ++ .name name :: (ats ++ (dts ++ sts)) := by
    rw [← List.append_assoc, List.singleton_append, hlabel]
    simp
  rw [htokens]
  exact .field label name has hds hselections

theorem reads_fragment (type : Option String) :
    Reads (directives depth >>= fun ds => block >>= fun selections =>
      pure (Selection.fragment type ds selections))
      fun us => P.OneSelection depth (.sign .spread :: (Phrase.typeTokens type ++ us)) := by
  refine (reads_directives depth).bind fun dts ds hds => ?_
  refine hblock.bind fun sts selections hselections => reads_pure ?_
  rw [List.append_nil]
  exact .fragment type hds hselections

theorem reads_fragmentSelection :
    Reads (fragmentSelection depth block) fun us => P.OneSelection depth (.sign .spread :: us) := by
  intro ts selection rest hread
  by_cases hname : ∃ text others, ts = .name text :: others
  · obtain ⟨text, ts, rfl⟩ := hname
    by_cases hon : text = "on"
    · have hfragment : Reads (name >>= fun type => directives depth >>= fun ds =>
          block >>= fun selections => pure (Selection.fragment (some type) ds selections))
          fun us => P.OneSelection depth (.sign .spread :: .name "on" :: us) := by
        refine reads_name.bind ?_
        rintro _ type rfl
        exact reads_fragment hblock (some type)
      rw [hon, fragmentSelection_on] at hread
      obtain ⟨us, rfl, h⟩ := hfragment _ _ _ hread
      exact ⟨_ :: us, hon ▸ rfl, h⟩
    · have hspread : Reads (directives depth >>= fun ds => pure (Selection.spread text ds))
          fun us => P.OneSelection depth (.sign .spread :: .name text :: us) := by
        refine (reads_directives depth).bind fun dts ds hds => reads_pure ?_
        rw [List.append_nil]
        exact .spread hon hds
      rw [fragmentSelection_name hon] at hread
      obtain ⟨us, rfl, h⟩ := hspread _ _ _ hread
      exact ⟨_ :: us, rfl, h⟩
  · rw [fragmentSelection_other fun text e => hname ⟨text, List.head?_eq_some_iff.1 e⟩] at hread
    exact reads_fragment hblock none _ _ _ hread

theorem reads_selection : Reads (selection depth block) (P.OneSelection depth) := by
  refine (reads_signIfNext .spread).bind ?_
  rintro _ spreads rfl
  refine reads_ite (fun hspreads => ?_) fun hspreads => ?_
  · rw [if_pos hspreads]
    exact reads_fragmentSelection hblock
  · rw [if_neg hspreads]
    exact reads_fieldSelection hblock

end Blocks

theorem reads_selectionSet (depth : Nat) :
    Reads (selectionSet depth) (Phrase.selectionSet depth) := by
  induction depth with
  | zero => exact reads_stuck
  | succ depth ih => exact reads_bracketed1 (reads_selection ih) _ _

/-! ## Selections are read -/

/-- No selection goes on with the tokens. -/
def EndsSelection (ts : List Token) : Prop :=
  NotNext .colon ts ∧ NotNext .openParen ts ∧ NotNext .at ts ∧ NotNext .openBrace ts

theorem endsSelection_cons {t : Token}
    (h : ∀ s ∈ [Sign.colon, .openParen, .at, .openBrace], t ≠ .sign s) :
    EndsSelection (t :: ts) := by
  simpa [EndsSelection, NotNext] using h

theorem notNext_append {s : Sign} {us rest : List Token} (hus : NotNext s us)
    (hrest : NotNext s rest) : NotNext s (us ++ rest) := by
  cases us with
  | nil => exact hrest
  | cons t us => exact hus

theorem notNext_of_head? {s t : Sign} (hst : s ≠ t) (h : ts.head? = some (.sign t)) :
    NotNext s ts := by
  intro e
  exact hst (Token.sign.inj (Option.some.inj (e.symm.trans h)))

theorem notNext_arguments {as : List (String × Value)} (h : Phrase.arguments depth ts as) {s : Sign}
    (hs : s ≠ .openParen) : NotNext s ts := by
  cases h with
  | absent => simp [NotNext]
  | present h =>
    cases depth with
    | zero => exact h.elim
    | succ depth => exact notNext_of_head? hs (head?_bracketed1 h)

theorem notNext_directives {ds : List Directive} (h : Phrase.directives depth ts ds) {s : Sign}
    (hs : s ≠ .at) : NotNext s ts := by
  cases h with
  | nil => simp [NotNext]
  | cons first _ =>
    obtain ⟨_⟩ := first
    exact notNext_of_head? hs rfl

/-- A name, behind its label if it has one. -/
theorem labelled_of_tokens (label : Option String) (name : String) {rest : List Token}
    (hrest : NotNext .colon rest) :
    (Parser.name >>= fun first => signIfNext .colon >>= fun labelled =>
      if labelled then Parser.name >>= fun second => pure (some first, second)
      else pure (none, first)) (Phrase.labelTokens label ++ .name name :: rest) =
        .ok ((label, name), rest) := by
  have hname : ∀ text ts, Parser.name (.name text :: ts) = .ok (text, ts) := fun _ _ => rfl
  cases label with
  | none =>
    rw [Phrase.labelTokens, List.nil_append, bind_of_ok (hname _ _),
      bind_of_ok (signIfNext_of_notNext hrest)]
    rfl
  | some label =>
    rw [Phrase.labelTokens, List.cons_append, List.cons_append, List.nil_append,
      bind_of_ok (hname _ _), bind_of_ok signIfNext_cons, if_pos rfl, bind_of_ok (hname _ _)]
    rfl

section Blocks

variable (hblock : Takes block P fun _ => True)
  (hopens : ∀ us selections, P us selections → us.head? = some (.sign .openBrace))

include hopens

theorem notNext_optional {selections : List Selection} (h : P.Optional ts selections) {s : Sign}
    (hs : s ≠ .openBrace) : NotNext s ts := by
  cases h with
  | absent => simp [NotNext]
  | present h => exact notNext_of_head? hs (hopens _ _ h)

include hblock

/-- A field is read part by part; what follows a part is not one more token of it. -/
theorem fieldSelection_of_parts (label : Option String) (name : String)
    {ats dts sts rest : List Token} {as : List (String × Value)} {ds : List Directive}
    {selections : List Selection} (harguments : Phrase.arguments depth ats as)
    (hdirectives : Phrase.directives depth dts ds) (hselections : P.Optional sts selections)
    (hrest : EndsSelection rest) :
    fieldSelection depth block
        (Phrase.labelTokens label ++ .name name :: (ats ++ (dts ++ (sts ++ rest)))) =
      .ok (.field label name as ds selections, rest) := by
  obtain ⟨hcolon, hparen, hat, hbrace⟩ := hrest
  have hsts : ∀ s, s ≠ .openBrace → NotNext s rest → NotNext s (sts ++ rest) :=
    fun s hs => notNext_append (notNext_optional hopens hselections hs)
  have hdts : ∀ s, s ≠ .at → NotNext s (sts ++ rest) → NotNext s (dts ++ (sts ++ rest)) :=
    fun s hs => notNext_append (notNext_directives hdirectives hs)
  have hats : NotNext .colon (ats ++ (dts ++ (sts ++ rest))) :=
    notNext_append (notNext_arguments harguments (by decide))
      (hdts _ (by decide) (hsts _ (by decide) hcolon))
  obtain ⟨first, mid, hfirst, hlabelled⟩ :=
    bind_apply_eq_ok.1 (labelled_of_tokens label name hats)
  have hreadArguments := takes_arguments depth _ _ _ harguments
    (hdts _ (by decide) (hsts _ (by decide) hparen))
  have hreadDirectives := takes_directives depth _ _ _ hdirectives
    ⟨hsts _ (by decide) hat, hsts _ (by decide) hparen⟩
  have hreadSelections := takes_ifNext hblock hopens _ _ _ hselections hbrace
  rw [fieldSelection, bind_of_ok hfirst, bind_of_ok hlabelled]
  simp only [bind_of_ok hreadArguments, bind_of_ok hreadDirectives, bind_of_ok hreadSelections]
  rfl

/-- The block of a fragment comes last, so nothing that follows it is looked at. -/
theorem fragment_of_parts (type : Option String) {dts sts : List Token} {ds : List Directive}
    {selections : List Selection} (hdirectives : Phrase.directives depth dts ds)
    (hselections : P sts selections) (rest : List Token) :
    fragmentSelection depth block (Phrase.typeTokens type ++ (dts ++ (sts ++ rest))) =
      .ok (.fragment type ds selections, rest) := by
  obtain ⟨ts, rfl⟩ := List.head?_eq_some_iff.1 (hopens _ _ hselections)
  have hreadDirectives := takes_directives depth _ _ (.sign .openBrace :: (ts ++ rest)) hdirectives
    (by simp [NotNext])
  have hreadSelections := hblock _ _ rest hselections trivial
  rw [List.cons_append] at hreadSelections ⊢
  cases type with
  | none =>
    have hother : ∀ text,
        (dts ++ .sign .openBrace :: (ts ++ rest)).head? ≠ some (.name text) := by
      cases hdirectives with
      | nil => simp
      | cons first _ =>
        obtain ⟨_⟩ := first
        simp
    rw [Phrase.typeTokens, List.nil_append, fragmentSelection_other hother,
      bind_of_ok hreadDirectives, bind_of_ok hreadSelections]
    rfl
  | some type =>
    have hname : Parser.name (.name type :: (dts ++ .sign .openBrace :: (ts ++ rest))) =
        .ok (type, _) := rfl
    rw [Phrase.typeTokens, List.cons_append, List.cons_append, List.nil_append,
      fragmentSelection_on, bind_of_ok hname, bind_of_ok hreadDirectives,
      bind_of_ok hreadSelections]
    rfl

theorem takes_selection :
    Takes (selection depth block) (P.OneSelection depth) EndsSelection := by
  rintro _ _ rest h hrest
  cases h with
  | @field ats dts sts as ds selections label name harguments hdirectives hselections =>
    have htokens : Phrase.labelTokens label ++ .name name :: (ats ++ (dts ++ sts)) ++ rest =
        Phrase.labelTokens label ++ .name name :: (ats ++ (dts ++ (sts ++ rest))) := by simp
    have hspread : NotNext .spread
        (Phrase.labelTokens label ++ .name name :: (ats ++ (dts ++ (sts ++ rest)))) := by
      cases label <;> simp [Phrase.labelTokens, NotNext]
    rw [htokens, selection, bind_of_ok (signIfNext_of_notNext hspread),
      if_neg Bool.false_ne_true]
    exact fieldSelection_of_parts hblock hopens label name harguments hdirectives hselections hrest
  | @spread dts ds name hname hdirectives =>
    have hreadDirectives := takes_directives depth _ _ rest hdirectives ⟨hrest.2.2.1, hrest.2.1⟩
    rw [List.cons_append, List.cons_append, selection, bind_of_ok signIfNext_cons, if_pos rfl,
      fragmentSelection_name hname, bind_of_ok hreadDirectives]
    rfl
  | @fragment dts sts ds selections type hdirectives hselections =>
    rw [List.cons_append, List.append_assoc, List.append_assoc, selection,
      bind_of_ok signIfNext_cons, if_pos rfl]
    exact fragment_of_parts hblock hopens type hdirectives hselections rest

end Blocks

theorem delimited_selection : Delimited (P.OneSelection depth) EndsSelection .closeBrace where
  starts := by
    rintro _ _ rest (⟨label, name⟩ | _ | _)
    · cases label <;> simp [Phrase.labelTokens, NotNext]
    · simp [NotNext]
    · simp [NotNext]
  next := by
    rintro _ _ rest (⟨label, name⟩ | _ | _)
    · cases label <;> exact endsSelection_cons (by simp)
    · exact endsSelection_cons (by simp)
    · exact endsSelection_cons (by simp)
  last rest := endsSelection_cons (by simp)

theorem head?_selectionSet (depth : Nat) (us : List Token) (selections : List Selection)
    (h : Phrase.selectionSet depth us selections) : us.head? = some (.sign .openBrace) := by
  cases depth with
  | zero => exact h.elim
  | succ depth => exact head?_bracketed1 h

theorem takes_selectionSet (depth : Nat) :
    Takes (selectionSet depth) (Phrase.selectionSet depth) fun _ => True := by
  induction depth with
  | zero => exact fun _ _ _ h => h.elim
  | succ depth ih =>
    exact takes_bracketed1 (takes_selection ih (head?_selectionSet depth)) delimited_selection _

/-- **Selection sets are read as they are written**, and what follows is left. -/
theorem selectionSet_eq_ok_iff {depth : Nat} {ts rest : List Token} {selections : List Selection} :
    selectionSet depth ts = .ok (selections, rest) ↔
      ∃ us, ts = us ++ rest ∧ Phrase.selectionSet depth us selections := by
  constructor
  · exact reads_selectionSet depth ts selections rest
  · rintro ⟨us, rfl, h⟩
    exact takes_selectionSet depth us selections rest h trivial

/-- Of a document that starts with a brace the first definition is looked at, and all of them are
read. -/
theorem leadingSelections_eq_ok_iff {selections : List Selection} :
    leadingSelections ts = .ok (selections, []) ↔ ∃ us rest, ts = us ++ rest ∧
      Phrase.selectionSet nestingLimit us selections ∧
      ∃ others, definitions nestingLimit rest.length rest = .ok (others, []) := by
  constructor
  · intro h
    obtain ⟨own, rest, hfirst, hrest⟩ := bind_apply_eq_ok.1 h
    obtain ⟨us, hts, hus⟩ := selectionSet_eq_ok_iff.1 hfirst
    have hrest : (definitions nestingLimit rest.length >>= fun _ => pure own) rest =
        .ok (selections, []) := hrest
    obtain ⟨others, left, hothers, hlast⟩ := bind_apply_eq_ok.1 hrest
    obtain ⟨rfl, rfl⟩ := Prod.mk.injEq .. ▸ Except.ok.inj hlast
    exact ⟨us, rest, hts, hus, others, hothers⟩
  · rintro ⟨us, rest, rfl, hus, others, hothers⟩
    rw [leadingSelections, bind_of_ok (selectionSet_eq_ok_iff.2 ⟨us, rfl, hus⟩)]
    show (definitions nestingLimit rest.length >>= fun _ => pure selections) rest = _
    rw [bind_of_ok hothers]
    rfl

end Query

end Supergraph
