import Supergraph.Proofs.Language.Joining
import Supergraph.Proofs.Results
import Supergraph.Proofs.Schema.Continuing
import Supergraph.Proofs.Schema.Equality
import Supergraph.Schema.Fields
import Supergraph.Schema.Printer

/-!
# Printed definitions behind each other

A printed definition ends with a line feed, and a definition is over where another one starts. So
definitions that each read back from their printed forms also read back from the document that is
printed from all of them.

**Theorem (`eq_of_parseSchema_print`).** If each definition of a document reads back, then nothing
but the document is read from its printed form. The tokens of the text are those of the definitions,
one after the other, and the grammar takes them apart again at the same places.
-/

namespace Supergraph

/-! ## Ends of definitions -/

/-- Whether a text ends with a line feed. -/
def IsLine (text : String) : Prop := ∃ front, text = front ++ "\n"

theorem IsLine.append (front : String) {text : String} (h : IsLine text) :
    IsLine (front ++ text) := by
  obtain ⟨middle, rfl⟩ := h
  exact ⟨front ++ middle, (String.append_assoc ..).symm⟩

theorem IsLine.endsLine {text : String} (h : IsLine text) : Lexer.EndsLine text.toList := by
  obtain ⟨front, rfl⟩ := h
  intro c hc
  simpa using hc.symm

theorem isLine_braced (lines : List String) : IsLine (braced lines) :=
  IsLine.append _ ⟨"\x7d", rfl⟩

theorem isLine_optionallyBraced (lines : List String) : IsLine (optionallyBraced lines) := by
  unfold optionallyBraced
  split_ifs
  · exact ⟨"", rfl⟩
  · exact isLine_braced lines

theorem TypeDeclaration.isLine_print (declaration : TypeDeclaration) :
    IsLine declaration.print := by
  unfold TypeDeclaration.print
  split
  · exact ⟨_, rfl⟩
  · exact (isLine_optionallyBraced _).append _
  · exact ⟨_, rfl⟩
  · exact (isLine_optionallyBraced _).append _
  · exact (isLine_optionallyBraced _).append _

namespace Definition

theorem isLine_print (definition : Definition) : IsLine definition.print := by
  cases definition with
  | schema directives roots => exact (isLine_braced _).append _
  | type description declaration => exact declaration.isLine_print.append _
  | extension declaration => exact declaration.isLine_print.append _
  | directive definition => exact ⟨_, rfl⟩

/-! ## Definitions that read back -/

/-- Whether a definition reads back from its printed form. -/
def ReadsBack (definition : Definition) : Prop :=
  parseSchema definition.print = .ok ⟨[definition]⟩

instance : DecidablePred ReadsBack := fun _ => inferInstanceAs (Decidable (_ = _))

/-- Definitions that read back are told apart by their printed forms. -/
theorem ReadsBack.eq_of_print {a b : Definition} (ha : a.ReadsBack) (hb : b.ReadsBack)
    (h : a.print = b.print) : a = b := by
  have hdocument := Except.ok.inj (ha.symm.trans ((congrArg parseSchema h).trans hb))
  exact List.singleton_injective (Document.mk.inj hdocument)

end Definition

/-! ## Tokens of definitions -/

theorem parseSchema_eq_ok {text : String} {document : Document} :
    parseSchema text = .ok document ↔ Schema.document.runOn text = .ok document := by
  unfold parseSchema Document.parse
  cases Schema.document.runOn text <;> simp

namespace Schema

open Supergraph.Parser

/-- The tokens are those of the definition alone. -/
structure TokensOf (definition : Definition) (tokens : List Token) : Prop where
  splits : Lexer.Splits definition.print.toList tokens
  reads : Schema.definition nestingLimit tokens = .ok (definition, [])

theorem TokensOf.opens {definition : Definition} {tokens : List Token}
    (h : TokensOf definition tokens) : ∃ t ∈ tokens.head?, t.OpensDefinition :=
  opens_of_definition h.reads

/-- A definition with others behind it leaves the others, if it is read at all. -/
theorem TokensOf.definition_append {definition : Definition} {tokens others : List Token}
    (h : TokensOf definition tokens) (hopens : Opens others) {read : Definition × List Token}
    (hread : Schema.definition nestingLimit (tokens ++ others) = .ok read) :
    read = (definition, others) :=
  (continues_definition nestingLimit tokens definition [] h.reads).2 others hopens read hread

/-- A document with one definition is read from the tokens of the definition. -/
theorem definition_of_document {tokens : List Token} {read : Definition}
    (h : document tokens = .ok (⟨[read]⟩, [])) :
    definition nestingLimit tokens = .ok (read, []) := by
  obtain ⟨first, mid, hfirst, h⟩ := bind_apply_eq_ok.1 h
  obtain ⟨rest, last, hrest, h⟩ :=
    bind_apply_eq_ok.1 (show (definitions nestingLimit mid.length >>= fun rest =>
      pure (Document.mk (first :: rest))) mid = _ from h)
  obtain ⟨hdocument, rfl⟩ := Prod.mk.injEq .. ▸ Except.ok.inj h
  obtain ⟨rfl, rfl⟩ := List.cons.injEq .. ▸ Document.mk.inj hdocument
  cases mid with
  | nil => exact hfirst
  | cons t ts =>
    obtain ⟨second, mid, -, h⟩ := bind_apply_eq_ok.1
      (show (definition nestingLimit >>= fun second => definitions nestingLimit ts.length >>=
        fun rest => pure (second :: rest)) (t :: ts) = _ from hrest)
    obtain ⟨others, last, -, h⟩ := bind_apply_eq_ok.1 h
    cases h

theorem exists_tokensOf {definition : Definition} (h : definition.ReadsBack) :
    ∃ tokens, TokensOf definition tokens := by
  obtain ⟨tokens, hsplits, hread⟩ := runOn_eq_ok_iff.1 (parseSchema_eq_ok.1 h)
  exact ⟨tokens, hsplits, definition_of_document hread⟩

/-! ## Rows of definitions -/

/-- The tokens are those of the definitions, one after the other. -/
inductive TokensOfAll : List Definition → List Token → Prop where
  | nil : TokensOfAll [] []
  | cons {definition : Definition} {definitions : List Definition} {tokens others : List Token}
      (first : TokensOf definition tokens) (rest : TokensOfAll definitions others) :
      TokensOfAll (definition :: definitions) (tokens ++ others)

theorem exists_tokensOfAll {definitions : List Definition}
    (h : ∀ definition ∈ definitions, definition.ReadsBack) :
    ∃ tokens, TokensOfAll definitions tokens := by
  induction definitions with
  | nil => exact ⟨[], .nil⟩
  | cons definition rest ih =>
    obtain ⟨hfirst, hrest⟩ := List.forall_mem_cons.1 h
    obtain ⟨tokens, htokens⟩ := exists_tokensOf hfirst
    obtain ⟨others, hothers⟩ := ih hrest
    exact ⟨tokens ++ others, .cons htokens hothers⟩

namespace TokensOfAll

variable {ds : List Definition} {tokens : List Token}

theorem opens (h : TokensOfAll ds tokens) : Opens tokens := by
  cases h with
  | nil => exact fun t ht => absurd ht (Option.not_mem_none t)
  | cons first rest =>
    obtain ⟨t, ht, hopens⟩ := first.opens
    intro t' ht'
    rw [List.head?_append, Option.mem_def.1 ht] at ht'
    exact Option.some.inj ht' ▸ hopens

/-- The printed document consists of the tokens. -/
theorem splits (h : TokensOfAll ds tokens) : Lexer.Splits (Document.mk ds).print.toList tokens := by
  induction h with
  | nil => exact .nil rfl
  | @cons definition definitions tokens others first rest ih =>
    have hends := definition.isLine_print.endsLine
    cases definitions with
    | nil =>
      have hprint : (Document.mk [definition]).print = definition.print ++ "" := by
        rw [Document.print, List.map_singleton, String.intercalate_singleton, String.append_empty]
      rw [hprint, String.toList_append]
      exact first.splits.append hends ih
    | cons next definitions =>
      have hprint : (Document.mk (definition :: next :: definitions)).print =
          definition.print ++ ("\n" ++ (Document.mk (next :: definitions)).print) := by
        rw [Document.print, List.map_cons, List.map_cons, String.intercalate_cons_cons,
          String.append_assoc]
        rfl
      rw [hprint, String.toList_append, String.toList_append]
      exact first.splits.append hends ih.newline

/-- From the tokens of definitions nothing but the definitions is read. -/
theorem eq_of_definitions (h : TokensOfAll ds tokens) {fuel : Nat} (hfuel : tokens.length ≤ fuel)
    {read : List Definition × List Token}
    (hread : definitions nestingLimit fuel tokens = .ok read) : read = (ds, []) := by
  induction h generalizing fuel read with
  | nil => cases fuel <;> exact (Except.ok.inj hread).symm
  | @cons definition ds tokens others first rest ih =>
    obtain ⟨t, ht, -⟩ := first.opens
    obtain ⟨ts, rfl⟩ := List.head?_eq_some_iff.1 ht
    rw [List.length_append, List.length_cons] at hfuel
    cases fuel with
    | zero => omega
    | succ fuel =>
      have hstep : (Schema.definition nestingLimit >>= fun first =>
          definitions nestingLimit fuel >>= fun rest => pure (first :: rest)) (t :: ts ++ others) =
            .ok read := hread
      obtain ⟨own, behind, hfirst, hstep⟩ := bind_apply_eq_ok.1 hstep
      obtain ⟨hown, hbehind⟩ := Prod.mk.injEq .. ▸ first.definition_append rest.opens hfirst
      obtain ⟨others', left, hrest, hstep⟩ := bind_apply_eq_ok.1 hstep
      obtain ⟨hothers, hleft⟩ := Prod.mk.injEq .. ▸ ih (by omega) (hbehind ▸ hrest)
      rw [← hown, ← hothers, ← hleft]
      exact (Except.ok.inj hstep).symm

theorem eq_of_document (h : TokensOfAll ds tokens) {read : Document}
    (hread : document tokens = .ok (read, [])) : read = ⟨ds⟩ := by
  obtain ⟨own, behind, hfirst, hstep⟩ := bind_apply_eq_ok.1 hread
  cases h with
  | nil => cases hfirst
  | @cons definition ds tokens others first rest =>
    obtain ⟨hown, hbehind⟩ := Prod.mk.injEq .. ▸ first.definition_append rest.opens hfirst
    have hstep : (definitions nestingLimit behind.length >>= fun rest =>
        pure (Document.mk (own :: rest))) behind = .ok (read, []) := hstep
    obtain ⟨others', left, hrest, hstep⟩ := bind_apply_eq_ok.1 hstep
    rw [hbehind] at hrest
    obtain ⟨hothers, -⟩ := Prod.mk.injEq .. ▸ rest.eq_of_definitions le_rfl hrest
    obtain ⟨rfl, -⟩ := Prod.mk.injEq .. ▸ Except.ok.inj hstep
    rw [hown, hothers]

end TokensOfAll

end Schema

/-- **A printed document is read as it is**, if it is read, provided that each of its definitions
reads back. -/
theorem Document.eq_of_parseSchema_print {document read : Document}
    (h : ∀ definition ∈ document.definitions, definition.ReadsBack)
    (hread : parseSchema document.print = .ok read) : read = document := by
  obtain ⟨tokens, htokens⟩ := Schema.exists_tokensOfAll h
  obtain ⟨others, hsplits, hread⟩ := Parser.runOn_eq_ok_iff.1 (parseSchema_eq_ok.1 hread)
  exact htokens.eq_of_document (htokens.splits.unique hsplits ▸ hread)

end Supergraph
