import Supergraph.Proofs.FieldSet.RoundTrip
import Supergraph.Proofs.Renaming

/-!
# Renamed field sets

A key selects fields by a text. Renaming fields reads the text, renames what is selected at its top
level and prints it again, unless nothing is renamed there. Read again, the new text selects the
renamed fields (`parse_of_applyToFieldSetText`), provided that the new names are names of the
language. For the keys of a container that means: all of them can be read, and they select the
renamed fields (`keyText?_of_applyToTypeDirective`).
-/

namespace Supergraph.FieldRename

open Supergraph.FieldSet

variable {renames : List FieldRename} {typeName : String}

/-! ## Texts -/

theorem apply_of_find?_eq_none {name : String} (h : find? renames typeName name = none) :
    apply renames typeName name = name := by
  rw [apply, h, Option.getD_none]

theorem isName_apply (hnames : ∀ r ∈ renames, Lexer.isName r.target.toList) {name : String}
    (hname : Lexer.isName name.toList) : Lexer.isName (apply renames typeName name).toList := by
  cases h : find? renames typeName name with
  | none => rwa [apply_of_find?_eq_none h]
  | some target =>
    obtain ⟨r, hr, rfl⟩ := Option.map_eq_some_iff.1 h
    rw [apply, h, Option.getD_some]
    exact hnames r (List.mem_of_find?_eq_some hr)

theorem names_applyToFieldSet (fields : FieldSet) :
    (applyToFieldSet renames typeName fields).names =
      fields.names.map (apply renames typeName) := by
  rw [FieldSet.names, applyToFieldSet, List.map_map, FieldSet.names, List.map_map]
  rfl

/-- Only the top level is renamed, so the braces stay. -/
theorem writable_applyToFieldSet {depth : Nat} {fields : FieldSet} (h : Writable depth fields)
    (hnames : ∀ field ∈ fields, Lexer.isName (apply renames typeName field.name).toList) :
    Writable depth (applyToFieldSet renames typeName fields) := by
  induction h with
  | nil => exact .nil
  | cons _ hnested _ _ ihrest =>
    obtain ⟨hname, hrest⟩ := List.forall_mem_cons.1 hnames
    exact .cons hname hnested (ihrest hrest)

theorem isName_of_writable {depth : Nat} {fields : FieldSet} (h : Writable depth fields) :
    ∀ field ∈ fields, Lexer.isName field.name.toList := by
  induction h with
  | nil => exact List.forall_mem_nil _
  | cons hname _ _ _ ihrest => exact List.forall_mem_cons.2 ⟨hname, ihrest⟩

theorem applyToFieldSet_eq_self {fields : FieldSet}
    (h : ∀ field ∈ fields, apply renames typeName field.name = field.name) :
    applyToFieldSet renames typeName fields = fields := by
  refine (List.map_congr_left (g := id) fun field hfield => ?_).trans (List.map_id fields)
  rw [h field hfield]
  cases field
  rfl

theorem apply_eq_of_any {fields : FieldSet}
    (h : ¬ fields.any fun field => (find? renames typeName field.name).isSome) :
    ∀ field ∈ fields, apply renames typeName field.name = field.name := by
  intro field hfield
  have hnone : ∀ field ∈ fields, find? renames typeName field.name = none := by
    simpa using h
  exact apply_of_find?_eq_none (hnone field hfield)

/-- The renamed text selects the renamed fields, if these have names of the language. -/
theorem parse_renamed {text renamed : String} {fields : FieldSet}
    (hfields : parse text = .ok fields)
    (h : applyToFieldSetText renames typeName text = .ok renamed)
    (hnames : ∀ field ∈ fields, Lexer.isName (apply renames typeName field.name).toList) :
    parse renamed = .ok (applyToFieldSet renames typeName fields) := by
  rw [applyToFieldSetText, hfields, ok_bind] at h
  -- Only a text in which something is renamed is printed anew, and such a text is not empty.
  split_ifs at h with hany
  · obtain rfl := Except.ok.inj h
    refine parse_print (writable_applyToFieldSet (writable_of_parse hfields) hnames) ?_
    rintro hempty
    rw [List.map_eq_nil_iff.1 hempty] at hany
    cases hany
  · obtain rfl := Except.ok.inj h
    exact hfields.trans (congrArg Except.ok (applyToFieldSet_eq_self (apply_eq_of_any hany)).symm)

/-- The renamed text selects the renamed fields. -/
theorem parse_of_applyToFieldSetText (hnames : ∀ r ∈ renames, Lexer.isName r.target.toList)
    {text renamed : String} (h : applyToFieldSetText renames typeName text = .ok renamed) :
    ∃ fields, parse text = .ok fields ∧
      parse renamed = .ok (applyToFieldSet renames typeName fields) := by
  obtain ⟨fields, hfields, -⟩ := bind_eq_ok.1 h
  refine ⟨fields, hfields, parse_renamed hfields h fun field hfield => ?_⟩
  exact isName_apply hnames (isName_of_writable (writable_of_parse hfields) field hfield)

theorem namesIn_of_applyToFieldSetText (hnames : ∀ r ∈ renames, Lexer.isName r.target.toList)
    {text renamed : String} (h : applyToFieldSetText renames typeName text = .ok renamed) :
    namesIn renamed = (namesIn text).map (apply renames typeName) ∧ errorIn? renamed = none := by
  obtain ⟨fields, htext, hrenamed⟩ := parse_of_applyToFieldSetText hnames h
  unfold namesIn errorIn?
  rw [htext, hrenamed]
  exact ⟨names_applyToFieldSet fields, rfl⟩

/-! ## Directives -/

theorem stringArgument?_cons (name : String) (argument : String × Value)
    (rest : List (String × Value)) (key : String) :
    Directive.stringArgument? ⟨name, argument :: rest⟩ key =
      if argument.1 = key then
        match argument.2 with
        | .string text => some text
        | _ => none
      else Directive.stringArgument? ⟨name, rest⟩ key := by
  obtain ⟨key', value⟩ := argument
  by_cases h : key' = key
  · cases value <;> simp [Directive.stringArgument?, h]
  · simp [Directive.stringArgument?, h]

/-- The first text called `fields` is renamed, and stays the first one. -/
theorem stringArgument?_of_applyToArguments {name : String}
    {arguments renamed : List (String × Value)}
    (h : applyToArguments renames typeName arguments = .ok renamed) :
    Option.Rel (fun text renamed => applyToFieldSetText renames typeName text = .ok renamed)
      (Directive.stringArgument? ⟨name, arguments⟩ "fields")
      (Directive.stringArgument? ⟨name, renamed⟩ "fields") := by
  induction arguments generalizing renamed with
  | nil =>
    obtain rfl := Except.ok.inj h
    exact .none
  | cons argument rest ih =>
    obtain ⟨key, value⟩ := argument
    obtain ⟨value', hvalue, h⟩ := bind_eq_ok.1 h
    obtain ⟨rest', hrest, h⟩ := bind_eq_ok.1 h
    obtain rfl := Except.ok.inj h
    rw [stringArgument?_cons, stringArgument?_cons]
    split at hvalue
    next text =>
      obtain ⟨text', htext, rfl⟩ := map_eq_ok.1 hvalue
      exact .some htext
    next hother =>
      obtain rfl := Except.ok.inj hvalue
      split_ifs with hkey
      · -- An argument called `fields` that is no text is kept, and hides later ones as before.
        cases value with
        | string text => exact absurd hkey fun e => hother text e rfl
        | _ => exact .none
      · exact ih hrest

theorem keyText?_of_applyToTypeDirective {directive renamed : Directive}
    (h : applyToTypeDirective renames typeName directive = .ok renamed) :
    Option.Rel (fun text renamed => applyToFieldSetText renames typeName text = .ok renamed)
      directive.keyText? renamed.keyText? := by
  unfold applyToTypeDirective at h
  split_ifs at h with hkey
  · obtain ⟨arguments, harguments, h⟩ := bind_eq_ok.1 h
    obtain rfl := Except.ok.inj h
    rw [Directive.keyText?, Directive.keyText?, if_pos hkey, if_pos hkey]
    exact stringArgument?_of_applyToArguments harguments
  · obtain rfl := Except.ok.inj h
    rw [Directive.keyText?, if_neg hkey]
    exact .none

/-! ## Keys -/

section Keys

variable (hnames : ∀ r ∈ renames, Lexer.isName r.target.toList) {container renamed : Container}
  (h : List.Forall₂ (fun directive renamed =>
    applyToTypeDirective renames typeName directive = .ok renamed)
    container.directives renamed.directives)

include h

theorem forall₂_keyTexts :
    List.Forall₂ (fun text renamed => applyToFieldSetText renames typeName text = .ok renamed)
      container.keyTexts renamed.keyTexts := by
  have hlift : Relator.LiftFun
      (fun directive renamed => applyToTypeDirective renames typeName directive = .ok renamed)
      (Option.Rel fun text renamed => applyToFieldSetText renames typeName text = .ok renamed)
      Directive.keyText? Directive.keyText? := fun _ _ => keyText?_of_applyToTypeDirective
  exact List.rel_filterMap hlift h

include hnames

theorem keyNames_renamed :
    renamed.keyNames = container.keyNames.map (apply renames typeName) := by
  rw [Container.keyNames, Container.keyNames, List.map_flatMap]
  exact flatMap_eq_of_forall₂ (forall₂_keyTexts h) fun _ _ _ htext =>
    (namesIn_of_applyToFieldSetText hnames htext).1

theorem errorIn?_renamed : ∀ text ∈ renamed.keyTexts, errorIn? text = none :=
  forall_mem_of_forall₂ (forall₂_keyTexts h) fun _ _ htext =>
    (namesIn_of_applyToFieldSetText hnames htext).2

end Keys

end Supergraph.FieldRename
