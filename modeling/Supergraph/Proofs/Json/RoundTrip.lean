import Supergraph.Proofs.Json.Strings

/-!
# Values that come back from their text

The text of a value need not be read as the value itself: the reader goes down a number of levels
only, a float may be read as another one, and what is unreadable is written as `null`.

**Theorem (`parse?_print_iff`).** The text of a value is read as the value exactly if the value is
`Recoverable` within the limit of the reader: its arrays and objects nest at most that deep, and
`reread` changes nothing in it.

**Proof.** A reader of items with commas between them reads what the reader of an item reads of each
(`run_items`). By induction on how a value nests, its text is then read as `reread` says, wherever
it stands (`run_value`). For the other direction, nothing that is read nests deeper than the reader
goes (`nests_of_run_value`), so a value that comes back is read as `reread` says, too.
-/

namespace Supergraph.Json

/-! ## What comes back -/

/-- Arrays and objects nest in a value at most as deep as the level says. -/
inductive Nests : Nat → Json → Prop
  | null {depth : Nat} : Nests depth .null
  | bool {depth : Nat} {value : Bool} : Nests depth (.bool value)
  | number {depth : Nat} {n : Number} : Nests depth (.number n)
  | string {depth : Nat} {text : String} : Nests depth (.string text)
  | unreadable {depth : Nat} : Nests depth .unreadable
  | array {depth : Nat} {items : List Json} (h : ∀ item ∈ items, Nests depth item) :
    Nests (depth + 1) (.array items)
  | object {depth : Nat} {members : List (String × Json)}
    (h : ∀ member ∈ members, Nests depth member.2) : Nests (depth + 1) (.object members)

mutual

/-- What the text of a value is read as. -/
def reread : Json → Json
  | .number n => (n.reread?.map .number).getD .unreadable
  | .array items => .array (rereadItems items)
  | .object members => .object (rereadMembers members)
  | .null => .null
  | .bool value => .bool value
  | .string text => .string text
  | .unreadable => .null

def rereadItems : List Json → List Json
  | [] => []
  | item :: rest => item.reread :: rereadItems rest

def rereadMembers : List (String × Json) → List (String × Json)
  | [] => []
  | (name, value) :: rest => (name, value.reread) :: rereadMembers rest

end

theorem reread_array (items : List Json) : (array items).reread = .array (items.map reread) := by
  rw [reread]
  congr 1
  induction items with
  | nil => rfl
  | cons item rest ih => rw [rereadItems, ih, List.map_cons]

theorem reread_object (members : List (String × Json)) :
    (object members).reread = .object (members.map fun member => (member.1, member.2.reread)) := by
  rw [reread]
  congr 1
  induction members with
  | nil => rfl
  | cons member rest ih => rw [rereadMembers, ih, List.map_cons]

/-- A value that is read back from its text within the given number of levels. -/
structure Recoverable (depth : Nat) (j : Json) : Prop where
  nests : Nests depth j
  same : j.reread = j

/-! ## Texts of arrays and objects -/

/-- The texts of items that follow others, each behind a comma. -/
def restText {α : Type} (text : α → List Char) (xs : List α) : List Char :=
  xs.flatMap fun x => ',' :: text x

theorem restText_cons {α : Type} (text : α → List Char) (x : α) (xs : List α) :
    restText text (x :: xs) = ',' :: (text x ++ restText text xs) := by
  rw [restText, List.flatMap_cons, List.cons_append, restText]

/-- The texts of items with commas between them. -/
def joinedText {α : Type} (text : α → List Char) : List α → List Char
  | [] => []
  | x :: xs => text x ++ restText text xs

def memberText (member : String × Json) : List Char :=
  quoteText member.1 ++ ':' :: member.2.chars

theorem itemChars_eq (items : List Json) : itemChars items = joinedText chars items := by
  induction items with
  | nil => rw [itemChars, joinedText]
  | cons item rest ih =>
    cases rest with
    | nil => rw [itemChars, joinedText, restText, List.flatMap_nil, List.append_nil]
    | cons next rest =>
      rw [itemChars, ih, joinedText, joinedText, restText_cons]
      exact List.cons_ne_nil _ _

theorem memberChars_eq (members : List (String × Json)) :
    memberChars members = joinedText memberText members := by
  induction members with
  | nil => rw [memberChars, joinedText]
  | cons member rest ih =>
    cases rest with
    | nil => rw [memberChars, joinedText, restText, List.flatMap_nil, List.append_nil, memberText]
    | cons next rest =>
      rw [memberChars, ih, joinedText, joinedText, restText_cons]
      · simp only [memberText, List.append_assoc, List.cons_append]
      · exact List.cons_ne_nil _ _

theorem length_le_joinedText {α : Type} (text : α → List Char) {xs : List α} {x : α}
    (h : x ∈ xs) : (text x).length ≤ (joinedText text xs).length := by
  cases xs with
  | nil => exact nomatch h
  | cons first xs =>
    rw [joinedText, List.length_append]
    rcases List.mem_cons.1 h with rfl | hmem
    · omega
    · obtain ⟨before, after, rfl⟩ := List.append_of_mem hmem
      simp only [restText, List.flatMap_append, List.flatMap_cons, List.length_append,
        List.length_cons]
      omega

theorem count_le_joinedText {α : Type} (text : α → List Char) (xs : List α) :
    xs.length ≤ (joinedText text xs).length + 1 := by
  have hrest : ∀ xs : List α, xs.length ≤ (restText text xs).length := by
    intro xs
    induction xs with
    | nil => exact le_rfl
    | cons x rest ih =>
      rw [restText_cons, List.length_cons, List.length_cons, List.length_append]
      omega
  cases xs with
  | nil => exact Nat.zero_le _
  | cons x xs =>
    have := hrest xs
    rw [joinedText, List.length_append, List.length_cons]
    omega

/-- A text begins with a character that neither is white space nor closes an array or object. -/
def BeginsItem (text : List Char) : Prop :=
  ∃ c, text.head? = some c ∧ Reader.isSpace c = false ∧ c ≠ ']' ∧ c ≠ '\x7d'

theorem BeginsItem.append {text : List Char} (h : BeginsItem text) (rest : List Char) :
    BeginsItem (text ++ rest) := by
  obtain ⟨c, hhead, hc⟩ := h
  exact ⟨c, by rw [List.head?_append, hhead, Option.some_or], hc⟩

/-- What begins a number begins no other value, and is no white space. -/
theorem ne_of_begins_number {c d : Char} (hc : c = '-' ∨ c.isDigit = true)
    (hd : d ≠ '-' ∧ d.isDigit = false) : c ≠ d := by
  rintro rfl
  rcases hc with rfl | hdigit
  · exact hd.1 rfl
  · exact Bool.false_ne_true (hd.2.symm.trans hdigit)

theorem isSpace_of_begins_number {c : Char} (hc : c = '-' ∨ c.isDigit = true) :
    Reader.isSpace c = false := by
  simp only [Reader.isSpace, Bool.or_eq_false_iff, beq_eq_false_iff_ne]
  refine ⟨⟨⟨?_, ?_⟩, ?_⟩, ?_⟩ <;> exact ne_of_begins_number hc (by decide)

theorem beginsItem_chars (j : Json) : BeginsItem j.chars := by
  cases j with
  | number n =>
    obtain ⟨c, hhead, hc⟩ := n.exists_head?_text
    exact ⟨c, hhead, isSpace_of_begins_number hc, ne_of_begins_number hc (by decide),
      ne_of_begins_number hc (by decide)⟩
  | bool value =>
    cases value
    · exact ⟨'f', rfl, by decide⟩
    · exact ⟨'t', rfl, by decide⟩
  | null => exact ⟨'n', rfl, by decide⟩
  | unreadable => exact ⟨'n', rfl, by decide⟩
  | string text => exact ⟨'"', rfl, by decide⟩
  | array items => exact ⟨'[', by rw [chars]; rfl, by decide⟩
  | object members => exact ⟨'\x7b', by rw [chars]; rfl, by decide⟩

theorem beginsItem_memberText (member : String × Json) : BeginsItem (memberText member) :=
  ⟨'"', rfl, by decide⟩

theorem endsValue_cons {c : Char} (h : c = ',' ∨ c = ']' ∨ c = '\x7d') (rest : List Char) :
    EndsValue (c :: rest) := fun d hd => by
  obtain rfl := Option.some.inj hd
  exact h

namespace Reader

/-! ## Reading items -/

theorem run_space {text : List Char} (h : ∀ c ∈ text.head?, isSpace c = false) :
    space.run text = some ((), text) := by
  cases text with
  | nil => rfl
  | cons c text =>
    show some ((), (c :: text).dropWhile isSpace) = _
    rw [List.dropWhile_cons_of_neg (by simp [h c rfl])]

theorem run_space_of_beginsItem {text : List Char} (h : BeginsItem text) :
    space.run text = some ((), text) := by
  obtain ⟨c, hhead, hspace, -⟩ := h
  refine run_space fun d hd => ?_
  obtain rfl := Option.some.inj (hhead.symm.trans hd)
  exact hspace

/-- What closes an array or an object. -/
def Closes (c : Char) : Prop := c = ']' ∨ c = '\x7d'

theorem Closes.isSpace {close : Char} (h : Closes close) : isSpace close = false := by
  rcases h with rfl | rfl <;> rfl

theorem run_charIfNext_of_beginsItem {close : Char} (hclose : Closes close) {text : List Char}
    (h : BeginsItem text) : (charIfNext close).run text = some (false, text) := by
  obtain ⟨c, hhead, -, hbracket, hbrace⟩ := h
  refine run_charIfNext_of_ne fun d hd => ?_
  obtain rfl := Option.some.inj (hhead.symm.trans hd)
  rcases hclose with rfl | rfl
  · exact hbracket
  · exact hbrace

variable {fuel : Nat}

section Items

variable {α β : Type} {close : Char} {item : Reader α} {text : β → List Char} {result : β → α}

/-- The reader of an item reads the text of each as its result, wherever a value may end. -/
def ReadsEach (item : Reader α) (text : β → List Char) (result : β → α) (xs : List β) : Prop :=
  ∀ x ∈ xs, BeginsItem (text x) ∧
    ∀ rest, EndsValue rest → item.run (text x ++ rest) = some (result x, rest)

theorem endsValue_restText (hclose : Closes close) (text : β → List Char) (xs : List β)
    (rest : List Char) : EndsValue (restText text xs ++ close :: rest) := by
  cases xs with
  | nil => exact endsValue_cons (.inr hclose) rest
  | cons x xs => exact endsValue_cons (.inl rfl) _

theorem run_itemsRest (hclose : Closes close) {xs : List β} (h : ReadsEach item text result xs)
    (done : List α) (hfuel : xs.length < fuel) (rest : List Char) :
    (itemsRest close item done fuel).run
        (restText text xs ++ close :: rest) = some (done.reverse ++ xs.map result, rest) := by
  induction xs generalizing done fuel with
  | nil =>
    obtain ⟨fuel, rfl⟩ := Nat.exists_eq_succ_of_ne_zero (Nat.ne_zero_of_lt hfuel)
    have hspace : space.run (close :: rest) = some ((), close :: rest) :=
      run_space fun c hc => Option.some.inj hc ▸ hclose.isSpace
    rw [restText, List.flatMap_nil, List.nil_append, itemsRest, run_bind_of_run hspace,
      run_bind_of_run (run_charIfNext_self _ _), List.map_nil, List.append_nil]
    rfl
  | cons x xs ih =>
    obtain ⟨fuel, rfl⟩ := Nat.exists_eq_succ_of_ne_zero (Nat.ne_zero_of_lt hfuel)
    rw [List.length_cons, Nat.succ_lt_succ_iff] at hfuel
    -- The text of another item begins with the comma in front of it.
    have hcomma : ∀ tail, (charIfNext close).run (',' :: tail) = some (false, ',' :: tail) :=
      fun tail => run_charIfNext_of_ne fun c hc => by
        obtain rfl := Option.some.inj hc
        rcases hclose with rfl | rfl <;> decide
    have hspace : ∀ tail, space.run (',' :: tail) = some ((), ',' :: tail) :=
      fun tail => run_space fun c hc => Option.some.inj hc ▸ rfl
    have hchar : ∀ tail, (char ',').run (',' :: tail) = some ((), tail) := fun _ => rfl
    have hitem := (h x List.mem_cons_self).2 _ (endsValue_restText hclose text xs rest)
    rw [restText_cons, List.cons_append, List.append_assoc, itemsRest,
      run_bind_of_run (hspace _), run_bind_of_run (hcomma _)]
    simp only [Bool.false_eq_true, if_false]
    rw [run_bind_of_run (hchar _), run_bind_of_run hitem,
      ih (fun y hy => h y (List.mem_cons_of_mem _ hy)) _ hfuel, List.reverse_cons,
      List.append_assoc, List.map_cons, List.singleton_append]

/-- **Items are read one by one.** -/
theorem run_items (hclose : Closes close) {xs : List β} (h : ReadsEach item text result xs)
    (hfuel : xs.length ≤ fuel) (rest : List Char) :
    (items close item fuel).run (joinedText text xs ++ close :: rest) =
      some (xs.map result, rest) := by
  cases xs with
  | nil =>
    have hspace : space.run (close :: rest) = some ((), close :: rest) :=
      run_space fun c hc => Option.some.inj hc ▸ hclose.isSpace
    rw [joinedText, List.nil_append, items, run_bind_of_run hspace,
      run_bind_of_run (run_charIfNext_self _ _)]
    rfl
  | cons x xs =>
    obtain ⟨hbegins, hitem⟩ := h x List.mem_cons_self
    have hspace := run_space_of_beginsItem (hbegins.append (restText text xs ++ close :: rest))
    have hother := run_charIfNext_of_beginsItem hclose
      (hbegins.append (restText text xs ++ close :: rest))
    rw [joinedText, List.append_assoc, items, run_bind_of_run hspace, run_bind_of_run hother]
    simp only [Bool.false_eq_true, if_false]
    rw [run_bind_of_run (hitem _ (endsValue_restText hclose text xs rest)),
      run_itemsRest hclose (fun y hy => h y (List.mem_cons_of_mem _ hy)) _ hfuel]
    rfl

end Items

/-! ## Reading values -/

theorem run_value_of_head {depth : Nat} {c : Char} {text : List Char}
    (hspace : isSpace c = false) (hbracket : c ≠ '[') (hbrace : c ≠ '\x7b') :
    (value fuel depth).run (c :: text) = scalar.run (c :: text) := by
  have hrun : space.run (c :: text) = some ((), c :: text) :=
    run_space fun d hd => Option.some.inj hd ▸ hspace
  cases depth <;>
  · rw [value, run_bind_of_run hrun, run_bind_of_run (run_peek _)]
    simp [hbracket, hbrace]

theorem run_value_array {depth : Nat} {text rest : List Char} {read : List Json}
    (h : (items ']' (value fuel depth) fuel).run text = some (read, rest)) :
    (value fuel (depth + 1)).run ('[' :: text) = some (.array read, rest) := by
  have hspace : space.run ('[' :: text) = some ((), '[' :: text) :=
    run_space fun d hd => Option.some.inj hd ▸ rfl
  have hnext : next.run ('[' :: text) = some ('[', text) := rfl
  rw [value, run_bind_of_run hspace, run_bind_of_run (run_peek _)]
  show (next >>= _).run _ = _
  rw [run_bind_of_run hnext, run_bind_of_run h]
  rfl

def member (fuel depth : Nat) : Reader (Option String × Json) := do
  return (← name, ← value fuel depth)

theorem run_value_object {depth : Nat} {text rest : List Char}
    {read : List (Option String × Json)}
    (h : (items '\x7d' (member fuel depth) fuel).run text = some (read, rest)) :
    (value fuel (depth + 1)).run ('\x7b' :: text) = some (objectOf read, rest) := by
  have hspace : space.run ('\x7b' :: text) = some ((), '\x7b' :: text) :=
    run_space fun d hd => Option.some.inj hd ▸ rfl
  have hnext : next.run ('\x7b' :: text) = some ('\x7b', text) := rfl
  rw [value, run_bind_of_run hspace, run_bind_of_run (run_peek _)]
  show (next >>= _).run _ = _
  rw [run_bind_of_run hnext]
  show (items '\x7d' (member fuel depth) fuel >>= _).run _ = _
  rw [run_bind_of_run h]
  rfl

/-- The name of a member is read with its colon. -/
theorem run_name (text : String) (rest : List Char) :
    name.run (quoteText text ++ ':' :: rest) = some (some text, rest) := by
  have hspace : space.run (quoteText text ++ ':' :: rest) =
      some ((), quoteText text ++ ':' :: rest) :=
    run_space fun c hc => Option.some.inj hc ▸ rfl
  have hspace' : space.run (':' :: rest) = some ((), ':' :: rest) :=
    run_space fun c hc => Option.some.inj hc ▸ rfl
  have hchar : (char ':').run (':' :: rest) = some ((), rest) := rfl
  rw [name, run_bind_of_run hspace, run_bind_of_run (run_string text _), run_bind_of_run hspace',
    run_bind_of_run hchar]
  rfl

theorem run_value_number {depth : Nat} (n : Number) {rest : List Char} (hrest : EndsValue rest) :
    (value fuel depth).run (n.text ++ rest) = some ((Json.number n).reread, rest) := by
  obtain ⟨c, hhead, hc⟩ := n.exists_head?_text
  obtain ⟨tail, htail⟩ := List.head?_eq_some_iff.1 hhead
  have hn : c ≠ 'n' := ne_of_begins_number hc (by decide)
  have ht : c ≠ 't' := ne_of_begins_number hc (by decide)
  have hf : c ≠ 'f' := ne_of_begins_number hc (by decide)
  have hq : c ≠ '"' := ne_of_begins_number hc (by decide)
  have hnumber := n.run_number hrest
  rw [htail, List.cons_append] at hnumber ⊢
  rw [run_value_of_head (isSpace_of_begins_number hc) (ne_of_begins_number hc (by decide))
    (ne_of_begins_number hc (by decide)), scalar, run_bind_of_run (run_peek _)]
  simp only [List.head?_cons, Option.some.injEq, hn, ht, hf, hq, imp_self]
  rw [run_bind_of_run hnumber]
  rfl

/-- **The text of a value is read as `reread` says**, wherever it stands. -/
theorem run_value {depth : Nat} {j : Json} (h : Nests depth j) (hfuel : j.chars.length ≤ fuel)
    {rest : List Char} (hrest : EndsValue rest) :
    (value fuel depth).run (j.chars ++ rest) = some (j.reread, rest) := by
  induction h generalizing rest with
  | null => exact (run_value_of_head (by decide) (by decide) (by decide)).trans rfl
  | unreadable => exact (run_value_of_head (by decide) (by decide) (by decide)).trans rfl
  | @bool _ value =>
    cases value <;> exact (run_value_of_head (by decide) (by decide) (by decide)).trans rfl
  | @string _ text =>
    refine (run_value_of_head (by decide) (by decide) (by decide)).trans ?_
    rw [scalar, run_bind_of_run (run_peek _)]
    exact run_bind_of_run (run_string text rest)
  | number => exact run_value_number _ hrest
  | @array depth items hitems ih =>
    have htext : (array items).chars = '[' :: (joinedText chars items ++ [']']) := by
      rw [chars, itemChars_eq, List.cons_append]
    -- An item is shorter than the text it stands in, so the fuel suffices for it.
    have heach : ReadsEach (value fuel depth) chars reread items := by
      intro item hitem
      refine ⟨beginsItem_chars item, fun rest hrest => ih item hitem ?_ hrest⟩
      have := length_le_joinedText chars hitem
      simp only [htext, List.length_cons, List.length_append] at hfuel
      omega
    have hcount : items.length ≤ fuel := by
      have := count_le_joinedText chars items
      simp only [htext, List.length_cons, List.length_append] at hfuel
      omega
    rw [reread_array, htext, List.cons_append, List.append_assoc, List.singleton_append]
    exact run_value_array (run_items (.inl rfl) heach hcount rest)
  | @object depth members hmembers ih =>
    have htext : (object members).chars =
        '\x7b' :: (joinedText memberText members ++ ['\x7d']) := by
      rw [chars, memberChars_eq, List.cons_append]
    have heach : ReadsEach (member fuel depth) memberText
        (fun member => (some member.1, member.2.reread)) members := by
      intro next hnext
      have hshort : next.2.chars.length ≤ fuel := by
        have := length_le_joinedText memberText hnext
        simp only [htext, List.length_cons, List.length_append] at hfuel
        simp only [memberText, List.length_cons, List.length_append] at this
        omega
      refine ⟨beginsItem_memberText next, fun rest hrest => ?_⟩
      rw [memberText, List.append_assoc, List.cons_append, member,
        run_bind_of_run (run_name _ _), run_bind_of_run (ih next hnext hshort hrest)]
      rfl
    have hcount : members.length ≤ fuel := by
      have := count_le_joinedText memberText members
      simp only [htext, List.length_cons, List.length_append] at hfuel
      omega
    have hread : objectOf (members.map fun member => (some member.1, member.2.reread)) =
        (object members).reread := by
      simp [objectOf, reread_object, List.filterMap_map]
    rw [← hread, htext, List.cons_append, List.append_assoc, List.singleton_append]
    exact run_value_object (run_items (.inr rfl) heach hcount rest)

/-! ## What is read -/

theorem exists_of_run_bind {α β : Type} {first : Reader α} {next : α → Reader β}
    {text rest : List Char} {b : β} (h : (first >>= next).run text = some (b, rest)) :
    ∃ a rest', first.run text = some (a, rest') ∧ (next a).run rest' = some (b, rest) := by
  rw [StateT.run_bind] at h
  obtain ⟨⟨a, rest'⟩, hfirst, hnext⟩ := Option.bind_eq_some_iff.1 h
  exact ⟨a, rest', hfirst, hnext⟩

theorem eq_of_run_pure {α : Type} {a b : α} {text rest : List Char}
    (h : (pure a : Reader α).run text = some (b, rest)) : b = a :=
  (Prod.mk.inj (Option.some.inj h)).1.symm

section Items

variable {α : Type} {close : Char} {item : Reader α} {P : α → Prop}

theorem forall_of_run_itemsRest (hitem : ∀ text a rest, item.run text = some (a, rest) → P a)
    {done read : List α} (hdone : ∀ a ∈ done, P a) {text rest : List Char}
    (h : (itemsRest close item done fuel).run text = some (read, rest)) : ∀ a ∈ read, P a := by
  induction fuel generalizing done text with
  | zero => exact nomatch h
  | succ fuel ih =>
    obtain ⟨_, _, _, h⟩ := exists_of_run_bind h
    obtain ⟨closed, _, _, h⟩ := exists_of_run_bind h
    cases closed with
    | true =>
      obtain rfl := eq_of_run_pure h
      exact fun a ha => hdone a (List.mem_reverse.1 ha)
    | false =>
      obtain ⟨_, _, _, h⟩ := exists_of_run_bind h
      obtain ⟨next, _, hnext, h⟩ := exists_of_run_bind h
      refine ih (fun a ha => ?_) h
      rcases List.mem_cons.1 ha with rfl | ha
      · exact hitem _ _ _ hnext
      · exact hdone a ha

/-- What is true of all that an item is read as is true of every item that is read. -/
theorem forall_of_run_items (hitem : ∀ text a rest, item.run text = some (a, rest) → P a)
    {read : List α} {text rest : List Char}
    (h : (items close item fuel).run text = some (read, rest)) : ∀ a ∈ read, P a := by
  obtain ⟨_, _, _, h⟩ := exists_of_run_bind h
  obtain ⟨closed, _, _, h⟩ := exists_of_run_bind h
  cases closed with
  | true =>
    obtain rfl := eq_of_run_pure h
    exact fun a ha => nomatch ha
  | false =>
    obtain ⟨first, _, hfirst, h⟩ := exists_of_run_bind h
    refine forall_of_run_itemsRest hitem (fun a ha => ?_) h
    obtain rfl := List.mem_singleton.1 ha
    exact hitem _ _ _ hfirst

end Items

theorem nests_of_run_scalar {depth : Nat} {text rest : List Char} {j : Json}
    (h : scalar.run text = some (j, rest)) : Nests depth j := by
  obtain ⟨first, _, _, h⟩ := exists_of_run_bind h
  split at h
  · obtain ⟨_, _, _, h⟩ := exists_of_run_bind h
    exact eq_of_run_pure h ▸ .null
  · obtain ⟨_, _, _, h⟩ := exists_of_run_bind h
    exact eq_of_run_pure h ▸ .bool
  · obtain ⟨_, _, _, h⟩ := exists_of_run_bind h
    exact eq_of_run_pure h ▸ .bool
  · obtain ⟨read, _, _, h⟩ := exists_of_run_bind h
    obtain rfl := eq_of_run_pure h
    cases read
    · exact .unreadable
    · exact .string
  · obtain ⟨read, _, _, h⟩ := exists_of_run_bind h
    obtain rfl := eq_of_run_pure h
    cases read
    · exact .unreadable
    · exact .number

theorem nests_objectOf {depth : Nat} {members : List (Option String × Json)}
    (h : ∀ member ∈ members, Nests depth member.2) : Nests (depth + 1) (objectOf members) := by
  rw [objectOf]
  split
  · refine .object fun member hmember => ?_
    obtain ⟨⟨name, value⟩, hgiven, hnamed⟩ := List.mem_filterMap.1 hmember
    obtain ⟨_, _, rfl⟩ := Option.map_eq_some_iff.1 hnamed
    exact h _ hgiven
  · exact .unreadable

/-- **Nothing that is read nests deeper than the reader goes.** -/
theorem nests_of_run_value {depth : Nat} {text rest : List Char} {j : Json}
    (h : (value fuel depth).run text = some (j, rest)) : Nests depth j := by
  induction depth generalizing text j rest with
  | zero =>
    obtain ⟨_, _, _, h⟩ := exists_of_run_bind h
    obtain ⟨first, _, _, h⟩ := exists_of_run_bind h
    -- No more levels are allowed here, and what has brackets is given back as unreadable.
    split at h
    · obtain ⟨_, _, _, h⟩ := exists_of_run_bind h
      obtain ⟨_, _, _, h⟩ := exists_of_run_bind h
      exact eq_of_run_pure h ▸ .unreadable
    · obtain ⟨_, _, _, h⟩ := exists_of_run_bind h
      obtain ⟨_, _, _, h⟩ := exists_of_run_bind h
      exact eq_of_run_pure h ▸ .unreadable
    · exact nests_of_run_scalar h
  | succ depth ih =>
    obtain ⟨_, _, _, h⟩ := exists_of_run_bind h
    obtain ⟨first, _, _, h⟩ := exists_of_run_bind h
    split at h
    · obtain ⟨_, _, _, h⟩ := exists_of_run_bind h
      obtain ⟨read, _, hread, h⟩ := exists_of_run_bind h
      obtain rfl := eq_of_run_pure h
      exact .array (forall_of_run_items (fun _ _ _ hitem => ih hitem) hread)
    · obtain ⟨_, _, _, h⟩ := exists_of_run_bind h
      obtain ⟨read, _, hread, h⟩ := exists_of_run_bind h
      obtain rfl := eq_of_run_pure h
      -- Only the value of a member nests, and it is read behind the name.
      refine nests_objectOf (forall_of_run_items (fun _ _ _ hitem => ?_) hread)
      obtain ⟨_, _, _, hitem⟩ := exists_of_run_bind hitem
      obtain ⟨value, _, hvalue, hitem⟩ := exists_of_run_bind hitem
      obtain rfl := eq_of_run_pure hitem
      exact ih hvalue
    · exact nests_of_run_scalar h

end Reader

/-! ## Values and their texts -/

theorem toList_print (j : Json) : j.print.toList = j.chars := by
  rw [print, String.toList_ofList]

open Reader in
theorem nests_of_parse? {text : String} {j : Json} (h : parse? text = some j) :
    Nests nestingLimit j := by
  rw [parse?] at h
  cases hread : (value text.toList.length nestingLimit).run text.toList with
  | none => exact nomatch hread ▸ h
  | some found =>
    rw [hread] at h
    obtain ⟨-, hsame⟩ := Option.ite_none_right_eq_some.1 h
    obtain rfl := Option.some.inj hsame
    exact nests_of_run_value hread

open Reader in
theorem parse?_print_of_nests {j : Json} (h : Nests nestingLimit j) :
    parse? j.print = some j.reread := by
  have hread := run_value h le_rfl endsValue_nil
  rw [List.append_nil] at hread
  rw [parse?, toList_print, hread]
  rfl

/-- **A value comes back from its text exactly if it is recoverable.** -/
theorem parse?_print_iff (j : Json) :
    parse? j.print = some j ↔ j.Recoverable Reader.nestingLimit := by
  constructor
  · intro h
    have hnests := nests_of_parse? h
    rw [parse?_print_of_nests hnests] at h
    exact ⟨hnests, Option.some.inj h⟩
  · rintro ⟨hnests, hsame⟩
    rw [parse?_print_of_nests hnests, hsame]

end Supergraph.Json
