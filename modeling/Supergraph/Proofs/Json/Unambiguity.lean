import Supergraph.Proofs.Json.RoundTrip

/-!
# No two values have the same text

**Theorem (`print_injective`).** Two readable values with the same text are the same.

This does not follow from reading the text back, since a float may be read as another one.

**Proof.** The first character of a text tells the kind of the value (`lead_eq`). So two values
whose texts begin alike are of one kind, and for each kind there is only one value that begins a
given text and ends where a value can end (`chars_unique`). For an array or an object this is an
induction on the value: item after item is the same, and so is what follows it (`rests_unique`).
-/

namespace Supergraph.Json

/-- What is true of a value if it is true of its items or its members is true of every value. -/
@[elab_as_elim]
theorem induct {motive : Json → Prop} (null : motive .null) (bool : ∀ value, motive (.bool value))
    (number : ∀ n, motive (.number n)) (string : ∀ text, motive (.string text))
    (array : ∀ items, (∀ item ∈ items, motive item) → motive (.array items))
    (object : ∀ members, (∀ member ∈ members, motive member.2) → motive (.object members))
    (unreadable : motive .unreadable) : ∀ j, motive j
  | .null => null
  | .bool value => bool value
  | .number n => number n
  | .string text => string text
  | .array items => array items fun item hmem =>
    have := List.sizeOf_lt_of_mem hmem
    induct null bool number string array object unreadable item
  | .object members => object members fun (name, value) hmem =>
    have : sizeOf value < sizeOf members := by
      have := List.sizeOf_lt_of_mem hmem
      rw [Prod.mk.sizeOf_spec] at this
      omega
    induct null bool number string array object unreadable value
  | .unreadable => unreadable

/-! ## First characters -/

/-- The first character of the text of a value. Those of all numbers count as one. -/
def lead : Json → Char
  | .null | .unreadable => 'n'
  | .bool true => 't'
  | .bool false => 'f'
  | .number _ => '-'
  | .string _ => '"'
  | .array _ => '['
  | .object _ => '\x7b'

/-- The character that stands for all that begin a value of the same kind. -/
def leadOf (c : Char) : Char := if c.isDigit then '-' else c

theorem exists_lead (j : Json) : ∃ c, j.chars.head? = some c ∧ leadOf c = j.lead := by
  cases j with
  | number n =>
    obtain ⟨c, hhead, hc⟩ := n.exists_head?_text
    refine ⟨c, hhead, ?_⟩
    rcases hc with rfl | hdigit
    · rfl
    · exact if_pos hdigit
  | bool value => cases value <;> exact ⟨_, rfl, rfl⟩
  | null => exact ⟨_, rfl, rfl⟩
  | unreadable => exact ⟨_, rfl, rfl⟩
  | string text => exact ⟨_, rfl, rfl⟩
  | array items => exact ⟨'[', by rw [chars]; rfl, rfl⟩
  | object members => exact ⟨'\x7b', by rw [chars]; rfl, rfl⟩

theorem lead_eq {i j : Json} {rest rest' : List Char}
    (h : i.chars ++ rest = j.chars ++ rest') : i.lead = j.lead := by
  obtain ⟨c, hi, hc⟩ := exists_lead i
  obtain ⟨d, hj, hd⟩ := exists_lead j
  have hheads := congrArg List.head? h
  rw [List.head?_append, List.head?_append, hi, hj, Option.some_or, Option.some_or] at hheads
  rw [← hc, ← hd, Option.some.inj hheads]

/-! ## Items -/

section Items

variable {α : Type} {close : Char} {text : α → List Char}

/-- The texts of two values that begin alike and end where a value can end are the same. -/
def UniqueText (text : α → List Char) (x y : α) : Prop :=
  ∀ rest rest', EndsValue rest → EndsValue rest' →
    text x ++ rest = text y ++ rest' → x = y ∧ rest = rest'

theorem restText_unique (hclose : Reader.Closes close) {xs ys : List α}
    (h : ∀ x ∈ xs, ∀ y ∈ ys, UniqueText text x y) {rest rest' : List Char}
    (heq : restText text xs ++ close :: rest = restText text ys ++ close :: rest') :
    xs = ys ∧ rest = rest' := by
  have hcomma : close ≠ ',' := by rcases hclose with rfl | rfl <;> decide
  induction xs generalizing ys with
  | nil =>
    cases ys with
    | nil => exact ⟨rfl, (List.cons.inj heq).2⟩
    | cons y ys =>
      -- One list ends where the other one goes on with a comma.
      rw [restText_cons] at heq
      exact absurd (List.cons.inj heq).1 hcomma
  | cons x xs ih =>
    cases ys with
    | nil =>
      rw [restText_cons] at heq
      exact absurd (List.cons.inj heq).1.symm hcomma
    | cons y ys =>
      rw [restText_cons, restText_cons] at heq
      simp only [List.cons_append, List.append_assoc, List.cons.injEq, true_and] at heq
      -- A comma or the bracket follows both items, so neither of them can go on.
      obtain ⟨rfl, hrests⟩ := h x List.mem_cons_self y List.mem_cons_self _ _
        (Reader.endsValue_restText hclose text xs rest)
        (Reader.endsValue_restText hclose text ys rest') heq
      obtain ⟨rfl, hrest⟩ := ih (fun x hx y hy =>
        h x (List.mem_cons_of_mem _ hx) y (List.mem_cons_of_mem _ hy)) hrests
      exact ⟨rfl, hrest⟩

theorem joinedText_unique (hclose : Reader.Closes close) (hbegins : ∀ x, BeginsItem (text x))
    {xs ys : List α} (h : ∀ x ∈ xs, ∀ y ∈ ys, UniqueText text x y) {rest rest' : List Char}
    (heq : joinedText text xs ++ close :: rest = joinedText text ys ++ close :: rest') :
    xs = ys ∧ rest = rest' := by
  -- An item never begins with the bracket, so an empty list cannot be taken for another one.
  have hopen : ∀ x (tail tail' : List Char), text x ++ tail ≠ close :: tail' := by
    intro x tail tail' hsame
    obtain ⟨c, hc, -, hbracket, hbrace⟩ := (hbegins x).append tail
    rw [hsame] at hc
    obtain rfl := Option.some.inj hc
    rcases hclose with rfl | rfl
    · exact hbracket rfl
    · exact hbrace rfl
  cases xs with
  | nil =>
    cases ys with
    | nil => exact ⟨rfl, (List.cons.inj heq).2⟩
    | cons y ys =>
      rw [joinedText, joinedText, List.append_assoc] at heq
      exact absurd heq.symm (hopen y _ _)
  | cons x xs =>
    cases ys with
    | nil =>
      rw [joinedText, joinedText, List.append_assoc] at heq
      exact absurd heq (hopen x _ _)
    | cons y ys =>
      rw [joinedText, joinedText, List.append_assoc, List.append_assoc] at heq
      obtain ⟨rfl, hrests⟩ := h x List.mem_cons_self y List.mem_cons_self _ _
        (Reader.endsValue_restText hclose text xs rest)
        (Reader.endsValue_restText hclose text ys rest') heq
      obtain ⟨rfl, hrest⟩ := restText_unique hclose (fun x hx y hy =>
        h x (List.mem_cons_of_mem _ hx) y (List.mem_cons_of_mem _ hy)) hrests
      exact ⟨rfl, hrest⟩

end Items

/-! ## Values -/

theorem memberText_unique {member member' : String × Json}
    (h : UniqueText chars member.2 member'.2) : UniqueText memberText member member' := by
  intro rest rest' hrest hrest' heq
  rw [memberText, memberText, List.append_assoc, List.append_assoc] at heq
  obtain ⟨hname, hvalues⟩ := quoteText_unique heq
  obtain ⟨hvalue, hrests⟩ := h rest rest' hrest hrest' (List.cons.inj hvalues).2
  exact ⟨Prod.ext hname hvalue, hrests⟩

/-- **The text of a value is that of no other value**, wherever it stands. -/
theorem chars_unique {i j : Json} (hi : i.isReadable = true) (hj : j.isReadable = true) :
    UniqueText chars i j := by
  -- The first character tells the kinds of values apart, so only values of one kind are compared.
  induction i using induct generalizing j with
  | null =>
    intro rest rest' _ _ h
    have hlead := lead_eq h
    cases j with
    | null => exact ⟨rfl, List.append_cancel_left h⟩
    | unreadable => cases hj
    | bool value => cases value <;> simp [lead] at hlead
    | _ => simp [lead] at hlead
  | bool value =>
    intro rest rest' _ _ h
    have hlead := lead_eq h
    cases j with
    | bool value' =>
      obtain rfl : value = value' := by
        cases value <;> cases value' <;> simp [lead] at hlead <;> rfl
      exact ⟨rfl, List.append_cancel_left h⟩
    | _ => cases value <;> simp [lead] at hlead
  | number n =>
    intro rest rest' hrest hrest' h
    have hlead := lead_eq h
    cases j with
    | number n' =>
      obtain ⟨rfl, hrests⟩ := Number.text_unique hrest hrest' h
      exact ⟨rfl, hrests⟩
    | bool value => cases value <;> simp [lead] at hlead
    | _ => simp [lead] at hlead
  | string text =>
    intro rest rest' _ _ h
    have hlead := lead_eq h
    cases j with
    | string text' =>
      obtain ⟨rfl, hrests⟩ := quoteText_unique h
      exact ⟨rfl, hrests⟩
    | bool value => cases value <;> simp [lead] at hlead
    | _ => simp [lead] at hlead
  | array items ih =>
    intro rest rest' _ _ h
    have hlead := lead_eq h
    cases j with
    | array items' =>
      simp only [isReadable_array, List.all_eq_true] at hi hj
      simp only [chars, itemChars_eq, List.cons_append, List.append_assoc, List.cons.injEq,
        true_and, List.nil_append] at h
      obtain ⟨rfl, hrests⟩ := joinedText_unique (.inl rfl) beginsItem_chars
        (fun item hitem item' hitem' => ih item hitem (hi item hitem) (hj item' hitem')) h
      exact ⟨rfl, hrests⟩
    | bool value => cases value <;> simp [lead] at hlead
    | _ => simp [lead] at hlead
  | object members ih =>
    intro rest rest' _ _ h
    have hlead := lead_eq h
    cases j with
    | object members' =>
      simp only [isReadable_object, List.all_eq_true] at hi hj
      simp only [chars, memberChars_eq, List.cons_append, List.append_assoc, List.cons.injEq,
        true_and, List.nil_append] at h
      obtain ⟨rfl, hrests⟩ := joinedText_unique (.inr rfl) beginsItem_memberText
        (fun member hmember member' hmember' =>
          memberText_unique (ih member hmember (hi member hmember) (hj member' hmember'))) h
      exact ⟨rfl, hrests⟩
    | bool value => cases value <;> simp [lead] at hlead
    | _ => simp [lead] at hlead
  | unreadable => cases hi

/-- **No two values have the same text.** -/
theorem print_injective {i j : Json} (hi : i.isReadable = true) (hj : j.isReadable = true)
    (h : i.print = j.print) : i = j := by
  have hchars : i.chars ++ [] = j.chars ++ [] := by
    rw [List.append_nil, List.append_nil]
    exact String.ofList_injective h
  exact (chars_unique hi hj [] [] endsValue_nil endsValue_nil hchars).1

end Supergraph.Json
