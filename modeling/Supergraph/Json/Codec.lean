import Supergraph.Json.Value

/-!
# Records as JSON

A `Codec` writes values as JSON and reads them back; reading undoes writing, by construction.

Records are described member by member. `Members` is the part of a record that some of its members
hold: how they are written, and how they are read from a look-up of members by name. Parts with
different names are joined by `Members.and`, so a record lists its members once and gets both
directions. A record is read from an object, in which none of its members may be repeated and others
are ignored, or from the array of its members in order.

What is ignored need not be readable. That is different where members are read only after the whole
object was: a *strict* codec takes readable values only, and an *open* record, in which the members
of an inner record stand among its own, asks it of all members but its own.
-/

namespace Supergraph.Json

/-- A look-up of members by name. -/
abbrev Lookup : Type := String → Option Json

/-- The first member called `name`. -/
def lookup (members : List (String × Json)) : Lookup := fun name =>
  (members.find? (·.1 = name)).map (·.2)

theorem lookup_eq_none {members : List (String × Json)} {name : String}
    (h : name ∉ members.map (·.1)) : lookup members name = none := by
  simp only [lookup, Option.map_eq_none_iff, List.find?_eq_none, decide_eq_true_eq]
  exact fun member mem eq => h (List.mem_map.2 ⟨member, mem, eq⟩)

theorem lookup_append (a b : List (String × Json)) (name : String) :
    lookup (a ++ b) name = (lookup a name).or (lookup b name) := by
  simp only [lookup, List.find?_append]
  cases a.find? (·.1 = name) <;> rfl

/-- A way to write values as JSON and to read them back. -/
structure Codec (α : Type) where
  encode : α → Json
  decode : Json → Option α
  decode_encode : ∀ a, decode (encode a) = some a
  isReadable_encode : ∀ a, (encode a).isReadable = true

/-- A way to write some members of a record and to read them back. -/
structure Members (α : Type) where
  names : List String
  encode : α → List (String × Json)
  decode : Lookup → Option α
  names_encode : ∀ a, ((encode a).map (·.1)).Sublist names
  decode_congr : ∀ f g, (∀ name ∈ names, f name = g name) → decode f = decode g
  decode_encode : ∀ a, decode (lookup (encode a)) = some a
  isReadable_encode : ∀ a, ∀ member ∈ encode a, member.2.isReadable = true

/-! ## Scalars and containers -/

namespace Codec

variable {α β : Type}

/-- A codec whose written form is never `null`, so that `null` can stand for a missing value. -/
def NeverNull (c : Codec α) : Prop := ∀ a, c.encode a ≠ .null

/-- The values of `α` through those of `β`. -/
def imap (c : Codec α) (f : α → β) (g : β → α) (h : ∀ b, f (g b) = b) : Codec β where
  encode b := c.encode (g b)
  decode j := (c.decode j).map f
  decode_encode b := by simp [c.decode_encode, h]
  isReadable_encode b := c.isReadable_encode (g b)

/-- The values that are readable as a whole, whatever of them is ignored. -/
def strict (c : Codec α) : Codec α where
  encode := c.encode
  decode j := if j.isReadable then c.decode j else none
  decode_encode a := by simp [c.isReadable_encode, c.decode_encode]
  isReadable_encode := c.isReadable_encode

def text : Codec String where
  encode := .string
  decode
    | .string text => some text
    | _ => none
  decode_encode _ := rfl
  isReadable_encode _ := rfl

def bool : Codec Bool where
  encode := .bool
  decode
    | .bool value => some value
    | _ => none
  decode_encode _ := rfl
  isReadable_encode _ := rfl

/-- Natural numbers below `bound`. -/
def below (bound : Nat) (small : bound ≤ UInt64.size) : Codec (Fin bound) where
  encode n := .number (.int n.val (by unfold UInt64.size at small; omega))
  decode
    | .number (.int n _) =>
      if h : 0 ≤ n ∧ n.toNat < bound then some ⟨n.toNat, h.2⟩ else none
    | _ => none
  decode_encode n := by simp
  isReadable_encode _ := rfl

/-- Words of 64 bits. -/
def word64 : Codec UInt64 :=
  (below UInt64.size (by decide)).imap UInt64.ofFin UInt64.toFin fun _ => rfl

/-- Words of 16 bits. -/
def word16 : Codec UInt16 :=
  (below UInt16.size (by decide)).imap UInt16.ofFin UInt16.toFin fun _ => rfl

/-- JSON values in canonical form. -/
def canonical : Codec Canonical where
  encode c := c.value
  decode j := if j.isReadable then some j.toCanonical else none
  decode_encode c := by
    have readable := c.isReadable
    rcases c with ⟨value, h⟩
    simp [toCanonical, h, readable]
  isReadable_encode := Canonical.isReadable

/-- Reads every item of a list. -/
def decodeItems (c : Codec α) : List Json → Option (List α)
  | [] => some []
  | item :: rest => do return (← c.decode item) :: (← decodeItems c rest)

theorem decodeItems_map (c : Codec α) (items : List α) :
    c.decodeItems (items.map c.encode) = some items := by
  induction items with
  | nil => rfl
  | cons item rest ih => simp [decodeItems, c.decode_encode, ih]

def list (c : Codec α) : Codec (List α) where
  encode items := .array (items.map c.encode)
  decode
    | .array items => c.decodeItems items
    | _ => none
  decode_encode items := decodeItems_map c items
  isReadable_encode items := by simp [c.isReadable_encode]

/-- Reads the value of every member. -/
def decodeMembers (c : Codec α) : List (String × Json) → Option (List (String × α))
  | [] => some []
  | (name, value) :: rest => do
    let value ← c.decode value
    return (name, value) :: (← decodeMembers c rest)

theorem decodeMembers_map (c : Codec α) (entries : List (String × α)) :
    c.decodeMembers (entries.map fun entry => (entry.1, c.encode entry.2)) = some entries := by
  induction entries with
  | nil => rfl
  | cons entry rest ih => simp [decodeMembers, c.decode_encode, ih]

/-- Maps with text keys, written in the order of their keys. -/
def sortedMap (c : Codec α) : Codec (SortedMap α) where
  encode map := .object (map.entries.map fun entry => (entry.1, c.encode entry.2))
  decode
    | .object members => (c.decodeMembers members).map SortedMap.ofList
    | _ => none
  decode_encode map := by simp [decodeMembers_map, SortedMap.ofList_entries]
  isReadable_encode map := by simp [c.isReadable_encode]

/-- A choice among finitely many values, each written as a word. A word may also be read from an
object with the word as its only member and `null` as its value. -/
def choice [DecidableEq α] (word : α → String) (all : List α)
    (complete : ∀ a, all.find? (fun b => word b = word a) = some a) : Codec α where
  encode a := .string (word a)
  decode
    | .string text => all.find? fun a => word a = text
    | .object [(text, .null)] => all.find? fun a => word a = text
    | _ => none
  decode_encode := complete
  isReadable_encode _ := rfl

/-- A value or `null`. -/
def nullable (c : Codec α) (h : c.NeverNull) : Codec (Option α) where
  encode
    | some a => c.encode a
    | none => .null
  decode j := if j = .null then some none else (c.decode j).map some
  decode_encode a := by
    cases a with
    | none => rfl
    | some a => simp [h a, c.decode_encode]
  isReadable_encode a := by
    cases a with
    | none => rfl
    | some a => exact c.isReadable_encode a

theorem text_neverNull : text.NeverNull := nofun

theorem word64_neverNull : word64.NeverNull := nofun

theorem bool_neverNull : bool.NeverNull := nofun

end Codec

/-! ## Members -/

namespace Members

variable {α β γ : Type}

/-- A member that is always there. -/
def required (name : String) (c : Codec α) : Members α where
  names := [name]
  encode a := [(name, c.encode a)]
  decode f := (f name).bind c.decode
  names_encode _ := by simp
  decode_congr f g h := by simp [h name]
  decode_encode a := by simp [lookup, c.decode_encode]
  isReadable_encode a := by simp [c.isReadable_encode]

/-- A member that is always written, and may be missing when the value is `default`. -/
def defaulted (name : String) (c : Codec α) (default : α) : Members α where
  names := [name]
  encode a := [(name, c.encode a)]
  decode f :=
    match f name with
    | some j => c.decode j
    | none => some default
  names_encode _ := by simp
  decode_congr f g h := by simp [h name]
  decode_encode a := by simp [lookup, c.decode_encode]
  isReadable_encode a := by simp [c.isReadable_encode]

/-- A list that is written unless it is empty. -/
def listOrNothing (name : String) (c : Codec α) : Members (List α) where
  names := [name]
  encode items := if items.isEmpty then [] else [(name, c.list.encode items)]
  decode f :=
    match f name with
    | some j => c.list.decode j
    | none => some []
  names_encode items := by split <;> simp
  decode_congr f g h := by simp [h name]
  decode_encode items := by
    cases items with
    | nil => rfl
    | cons item rest =>
      have := c.list.decode_encode (item :: rest)
      simpa [lookup] using this
  isReadable_encode items := by
    split <;> simp [c.list.isReadable_encode]

/-- A member that is left out without a value; `null` is read like a missing member. -/
def optional (name : String) (c : Codec α) (h : c.NeverNull) : Members (Option α) where
  names := [name]
  encode
    | some a => [(name, c.encode a)]
    | none => []
  decode f :=
    match f name with
    | none => some none
    | some j => (c.nullable h).decode j
  names_encode a := by cases a <;> simp
  decode_congr f g h := by simp [h name]
  decode_encode a := by
    cases a with
    | none => rfl
    | some a =>
      have back : (c.nullable h).decode (c.encode a) = some (some a) :=
        (c.nullable h).decode_encode (some a)
      simpa [lookup] using back
  isReadable_encode a := by cases a <;> simp [c.isReadable_encode]

/-- A member that is written as `null` without a value; a missing member is read like `null`. -/
def nullable (name : String) (c : Codec α) (h : c.NeverNull) : Members (Option α) where
  names := [name]
  encode a := [(name, (c.nullable h).encode a)]
  decode f :=
    match f name with
    | none => some none
    | some j => (c.nullable h).decode j
  names_encode _ := by simp
  decode_congr f g h := by simp [h name]
  decode_encode a := by simp [lookup, (c.nullable h).decode_encode]
  isReadable_encode a := by simp [(c.nullable h).isReadable_encode]

/-- The members of one part and then those of another with other names. -/
def and (a : Members α) (b : Members β)
    (h : ∀ name ∈ a.names, name ∉ b.names := by exact of_decide_eq_true rfl) : Members (α × β) where
  names := a.names ++ b.names
  encode v := a.encode v.1 ++ b.encode v.2
  decode f := do return (← a.decode f, ← b.decode f)
  names_encode v := by
    rw [List.map_append]
    exact (a.names_encode v.1).append (b.names_encode v.2)
  decode_congr f g eq := by
    rw [a.decode_congr f g fun name mem => eq name (List.mem_append_left _ mem),
      b.decode_congr f g fun name mem => eq name (List.mem_append_right _ mem)]
  decode_encode v := by
    have left : a.decode (lookup (a.encode v.1 ++ b.encode v.2)) = some v.1 := by
      rw [← a.decode_encode v.1]
      refine a.decode_congr _ _ fun name mem => ?_
      rw [lookup_append, lookup_eq_none fun mem' => h name mem ((b.names_encode v.2).subset mem'),
        Option.or_none]
    have right : b.decode (lookup (a.encode v.1 ++ b.encode v.2)) = some v.2 := by
      rw [← b.decode_encode v.2]
      refine b.decode_congr _ _ fun name mem => ?_
      rw [lookup_append, lookup_eq_none fun mem' => h name ((a.names_encode v.1).subset mem') mem,
        Option.none_or]
    simp [left, right]
  isReadable_encode v member mem :=
    (List.mem_append.1 mem).elim (a.isReadable_encode v.1 member) (b.isReadable_encode v.2 member)

/-- The members of `β` through those of `α`. -/
def imap (a : Members α) (f : α → β) (g : β → α) (h : ∀ b, f (g b) = b) : Members β where
  names := a.names
  encode b := a.encode (g b)
  decode l := (a.decode l).map f
  names_encode b := a.names_encode (g b)
  decode_congr l m eq := by rw [a.decode_congr l m eq]
  decode_encode b := by simp [a.decode_encode, h]
  isReadable_encode b := a.isReadable_encode (g b)

/-! ## Records -/

/-- Whether some of the names occur twice among the members. -/
def repeats (names : List String) (members : List (String × Json)) : Bool :=
  names.any fun name => 2 ≤ (members.map (·.1)).count name

theorem repeats_eq_false {names : List String} {members : List (String × Json)}
    (h : (members.map (·.1)).Sublist names) (nodup : names.Nodup) :
    repeats names members = false := by
  simp only [repeats, List.any_eq_false, decide_eq_true_eq]
  intro name _
  have := (nodup.sublist h).count (a := name)
  split at this <;> omega

/-- Reads these members from those of an object. -/
def ofObject? (a : Members α) (members : List (String × Json)) : Option α :=
  if repeats a.names members then none else a.decode (lookup members)

theorem ofObject?_encode (a : Members α) (nodup : a.names.Nodup) (v : α) :
    a.ofObject? (a.encode v) = some v := by
  simp [ofObject?, repeats_eq_false (a.names_encode v) nodup, a.decode_encode]

theorem isReadable_object_encode (a : Members α) (v : α) :
    (Json.object (a.encode v)).isReadable = true := by
  simpa using fun name value => a.isReadable_encode v (name, value)

/-- The record with these members, read from an object. -/
def objectRecord (a : Members α) (nodup : a.names.Nodup := by exact of_decide_eq_true rfl) :
    Codec α where
  encode v := .object (a.encode v)
  decode
    | .object members => a.ofObject? members
    | _ => none
  decode_encode := a.ofObject?_encode nodup
  isReadable_encode := a.isReadable_object_encode

/-- The record with these members, read from an object or from the array of its members. -/
def record (a : Members α) (nodup : a.names.Nodup := by exact of_decide_eq_true rfl) : Codec α where
  encode v := .object (a.encode v)
  decode
    | .object members => a.ofObject? members
    | .array items =>
      if items.length ≤ a.names.length then a.decode (lookup (a.names.zip items)) else none
    | _ => none
  decode_encode := a.ofObject?_encode nodup
  isReadable_encode := a.isReadable_object_encode

/-- The record with these members, read from an object or from the array of all of its members. -/
def fullRecord (a : Members α) (nodup : a.names.Nodup := by exact of_decide_eq_true rfl) :
    Codec α where
  encode v := .object (a.encode v)
  decode
    | .object members => a.ofObject? members
    | .array items =>
      if items.length = a.names.length then a.decode (lookup (a.names.zip items)) else none
    | _ => none
  decode_encode := a.ofObject?_encode nodup
  isReadable_encode := a.isReadable_object_encode

/-- The record in which the members of an inner record stand in front of its own. -/
def openRecord (inner : Members α) (own : Members β)
    (apart : ∀ name ∈ inner.names, name ∉ own.names := by exact of_decide_eq_true rfl)
    (nodup : (inner.and own apart).names.Nodup := by exact of_decide_eq_true rfl) :
    Codec (α × β) where
  encode v := .object ((inner.and own apart).encode v)
  decode
    | .object members =>
      if members.all fun member => own.names.contains member.1 || member.2.isReadable then
        (inner.and own apart).ofObject? members
      else none
    | _ => none
  decode_encode v := by
    have readable : ((inner.and own apart).encode v).all
        (fun member => own.names.contains member.1 || member.2.isReadable) = true :=
      List.all_eq_true.2 fun member mem => by
        rw [(inner.and own apart).isReadable_encode v member mem, Bool.or_true]
    simp only [readable, ↓reduceIte]
    exact (inner.and own apart).ofObject?_encode nodup v
  isReadable_encode := (inner.and own apart).isReadable_object_encode

/-- The member that tells the alternatives of a choice apart, in front of those of an alternative.
-/
def withKind (a : Members α)
    (h : ∀ name ∈ ["kind"], name ∉ a.names := by exact of_decide_eq_true rfl) :
    Members (String × α) :=
  (required "kind" .text).and a h

/-- The record of the alternative with the given kind. -/
def alternative (kind : String) (a : Members (String × α))
    (nodup : a.names.Nodup := by exact of_decide_eq_true rfl) : Codec α where
  encode v := (a.record nodup).encode (kind, v)
  decode j := ((a.record nodup).decode j).bind fun v => if v.1 = kind then some v.2 else none
  decode_encode v := by simp [(a.record nodup).decode_encode]
  isReadable_encode v := (a.record nodup).isReadable_encode (kind, v)

theorem kind_of_decode_withKind {a : Members α} {h : ∀ name ∈ ["kind"], name ∉ a.names} {f : Lookup}
    {v : String × α} (eq : (a.withKind h).decode f = some v) : f "kind" = some (.string v.1) := by
  simp only [withKind, Members.and, required, Option.bind_eq_bind, Option.bind_eq_some_iff] at eq
  obtain ⟨kind, ⟨j, found, read⟩, rest, _, same⟩ := eq
  cases same
  cases j <;> simp_all [Codec.text]

/-- An alternative is not read as one of another kind. -/
theorem alternative_decode_ne {kind other : String} (ne : other ≠ kind)
    (a : Members α) (h : ∀ name ∈ ["kind"], name ∉ a.names) (nodup : (a.withKind h).names.Nodup)
    (b : Members β) (h' : ∀ name ∈ ["kind"], name ∉ b.names) (nodup' : (b.withKind h').names.Nodup)
    (v : β) :
    ((a.withKind h).alternative kind nodup).decode
      (((b.withKind h').alternative other nodup').encode v) = none := by
  simp only [alternative, record, ofObject?, Option.bind_eq_none_iff, Option.ite_none_left_eq_some]
  intro w ⟨_, eq⟩
  have kindIs := kind_of_decode_withKind eq
  simp only [withKind, Members.and, required, List.singleton_append, lookup, List.find?_cons,
    decide_true, Option.map_some, Codec.text, Option.some.injEq, Json.string.injEq] at kindIs
  rw [← kindIs, if_neg ne]

end Members

end Supergraph.Json
