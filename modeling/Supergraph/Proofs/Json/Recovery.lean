import Supergraph.Introspection.Introspector
import Supergraph.Proofs.Json.Unambiguity

/-!
# Records that come back from their text

A codec undoes its own writing, but between the two stands a text. A codec *recovers* its values
within a number of levels if it writes only what comes back from its text within that many levels
(`Codec.Recovers`), and then it reads every value back (`Codec.Recovers.readsBack`).

Each way to build a codec has its own lemma here: scalars recover within any number of levels, and
lists, maps and records need one level more than what they are made of.
-/

namespace Supergraph.Json

/-! ## Values -/

namespace Recoverable

variable {depth : Nat}

theorem null : Recoverable depth .null := ⟨.null, rfl⟩

theorem bool (value : Bool) : Recoverable depth (.bool value) := ⟨.bool, rfl⟩

theorem string (text : String) : Recoverable depth (.string text) := ⟨.string, rfl⟩

theorem int (value : Int)
    (range : -9223372036854775808 ≤ value ∧ value < 18446744073709551616) :
    Recoverable depth (.number (.int value range)) :=
  ⟨.number, by rw [reread, Number.reread?_int]; rfl⟩

theorem array {items : List Json} (h : ∀ item ∈ items, Recoverable depth item) :
    Recoverable (depth + 1) (.array items) where
  nests := .array fun item hitem => (h item hitem).nests
  same := by
    rw [reread_array, List.map_congr_left fun item hitem => (h item hitem).same, List.map_id']

theorem object {members : List (String × Json)}
    (h : ∀ member ∈ members, Recoverable depth member.2) :
    Recoverable (depth + 1) (.object members) where
  nests := .object fun member hmember => (h member hmember).nests
  same := by
    have hmembers : members.map (fun member => (member.1, member.2.reread)) = members.map id :=
      List.map_congr_left fun member hmember => by rw [(h member hmember).same]; rfl
    rw [reread_object, hmembers, List.map_id]

end Recoverable

/-! ## Canonical values -/

theorem canonicalItems_eq (items : List Json) : canonicalItems items = items.map canonical := by
  induction items with
  | nil => rfl
  | cons item rest ih => rw [canonicalItems, ih, List.map_cons]

theorem canonicalMembers_eq (members : List (String × Json)) :
    canonicalMembers members = members.map fun member => (member.1, member.2.canonical) := by
  induction members with
  | nil => rfl
  | cons member rest ih => rw [canonicalMembers, ih, List.map_cons]

/-- The canonical form of a value does not nest deeper than the value. -/
theorem Nests.canonical {depth : Nat} {j : Json} (h : Nests depth j) :
    Nests depth j.canonical := by
  induction h with
  | null => exact .null
  | bool => exact .bool
  | number => exact .number
  | string => exact .string
  | unreadable => exact .null
  | array _ ih =>
    rw [Json.canonical, canonicalItems_eq]
    refine .array fun item hitem => ?_
    obtain ⟨inner, hinner, rfl⟩ := List.mem_map.1 hitem
    exact ih inner hinner
  | object _ ih =>
    rw [Json.canonical, canonicalMembers_eq]
    refine .object fun member hmember => ?_
    obtain ⟨inner, hinner, rfl⟩ := List.mem_map.1 (mem_of_mem_sortEntries hmember)
    exact ih inner hinner

/-- What the text of a canonical value is read as is canonical, if all of it can be read. -/
theorem canonical_reread {j : Json} (h : j.canonical = j) (hread : j.reread.isReadable = true) :
    j.reread.canonical = j.reread := by
  induction j using induct with
  | null => rfl
  | bool value => rfl
  | string text => rfl
  | unreadable => rfl
  | number n =>
    rw [reread] at hread ⊢
    cases hn : n.reread? with
    | none => rw [hn] at hread; cases hread
    | some m => rfl
  | array items ih =>
    rw [canonical, canonicalItems_eq] at h
    rw [reread_array, isReadable_array, List.all_eq_true] at hread
    have hsame := List.map_eq_map_iff.1 ((Json.array.inj h).trans (List.map_id' items).symm)
    rw [reread_array, canonical, canonicalItems_eq, List.map_map]
    congr 1
    exact List.map_congr_left fun item hitem =>
      ih item hitem (hsame item hitem) (hread _ (List.mem_map_of_mem hitem))
  | object members ih =>
    rw [canonical] at h
    rw [reread_object, isReadable_object, List.all_eq_true] at hread
    have hmembers := Json.object.inj h
    have hsorted : KeysIncrease members := hmembers ▸ keysIncrease_sortEntries _
    have hsame : ∀ member ∈ members, member.2.canonical = member.2 := fun member hmember =>
      canonical_of_mem_canonicalMembers members member
        (mem_of_mem_sortEntries (by rwa [hmembers]))
    have heach : ∀ member ∈ members.map fun member => (member.1, member.2.reread),
        member.2.canonical = member.2 := by
      intro member hmember
      obtain ⟨inner, hinner, rfl⟩ := List.mem_map.1 hmember
      exact ih inner hinner (hsame inner hinner) (hread _ (List.mem_map_of_mem hinner))
    -- Rereading keeps the names, so the members stay sorted.
    rw [reread_object, canonical, canonicalMembers_of_forall heach,
      sortEntries_of_keysIncrease]
    exact List.pairwise_map.2 hsorted

/-! ## Codecs -/

variable {α β : Type} {depth : Nat}

/-- All that a codec writes comes back from its text within the given number of levels. -/
def Codec.Recovers (c : Codec α) (depth : Nat) : Prop := ∀ a, (c.encode a).Recoverable depth

/-- Every value is read back from the text that it is written as. -/
def Codec.ReadsBack (c : Codec α) : Prop := ∀ a, c.parse? (c.print a) = some a

theorem Codec.parse?_print {c : Codec α} {a : α}
    (h : (c.encode a).Recoverable Reader.nestingLimit) : c.parse? (c.print a) = some a := by
  rw [Codec.parse?, Codec.print, (parse?_print_iff _).2 h, Option.bind_some, c.decode_encode]

/-- **What a codec recovers is read back.** -/
theorem Codec.Recovers.readsBack {c : Codec α} (h : c.Recovers Reader.nestingLimit) :
    c.ReadsBack := fun a => Codec.parse?_print (h a)

namespace Codec.Recovers

theorem text : Codec.text.Recovers depth := Recoverable.string

theorem bool : Codec.bool.Recovers depth := Recoverable.bool

theorem below {bound : Nat} {small : bound ≤ UInt64.size} :
    (Codec.below bound small).Recovers depth :=
  fun _ => .int _ _

theorem choice [DecidableEq α] {word : α → String} {all : List α}
    {complete : ∀ a, all.find? (fun b => word b = word a) = some a} :
    (Codec.choice word all complete).Recovers depth :=
  fun _ => .string _

theorem imap {c : Codec α} {f : α → β} {g : β → α} {h : ∀ b, f (g b) = b} (hc : c.Recovers depth) :
    (c.imap f g h).Recovers depth :=
  fun b => hc (g b)

theorem word64 : Codec.word64.Recovers depth := imap below

theorem word16 : Codec.word16.Recovers depth := imap below

theorem nullable {c : Codec α} (h : c.NeverNull) (hc : c.Recovers depth) :
    (c.nullable h).Recovers depth
  | some a => hc a
  | none => .null

theorem list {c : Codec α} (hc : c.Recovers depth) : c.list.Recovers (depth + 1) := fun items =>
  .array fun j hj => by
    obtain ⟨a, -, rfl⟩ := List.mem_map.1 hj
    exact hc a

theorem sortedMap {c : Codec α} (hc : c.Recovers depth) : c.sortedMap.Recovers (depth + 1) :=
  fun map => .object fun member hmember => by
    obtain ⟨entry, -, rfl⟩ := List.mem_map.1 hmember
    exact hc entry.2

end Codec.Recovers

/-! ## Members -/

/-- All members that are written come back from their text within the given number of levels. -/
def Members.Recovers (m : Members α) (depth : Nat) : Prop :=
  ∀ a, ∀ member ∈ m.encode a, member.2.Recoverable depth

namespace Members.Recovers

variable {name : String} {c : Codec α} {m : Members α} {n : Members β}

theorem required (hc : c.Recovers depth) : (Members.required name c).Recovers depth :=
  fun a _ hmember => List.mem_singleton.1 hmember ▸ hc a

theorem defaulted {default : α} (hc : c.Recovers depth) :
    (Members.defaulted name c default).Recovers depth :=
  fun a _ hmember => List.mem_singleton.1 hmember ▸ hc a

theorem optional {h : c.NeverNull} (hc : c.Recovers depth) :
    (Members.optional name c h).Recovers depth
  | some a, _, hmember => List.mem_singleton.1 hmember ▸ hc a
  | none, _, hmember => nomatch hmember

theorem nullable {h : c.NeverNull} (hc : c.Recovers depth) :
    (Members.nullable name c h).Recovers depth :=
  fun a _ hmember => List.mem_singleton.1 hmember ▸ Codec.Recovers.nullable h hc a

theorem listOrNothing (hc : c.Recovers depth) :
    (Members.listOrNothing name c).Recovers (depth + 1)
  | [], _, hmember => nomatch hmember
  | item :: rest, _, hmember =>
    List.mem_singleton.1 hmember ▸ Codec.Recovers.list hc (item :: rest)

theorem and {h : ∀ name ∈ m.names, name ∉ n.names} (hm : m.Recovers depth)
    (hn : n.Recovers depth) : (m.and n h).Recovers depth :=
  fun v member hmember =>
    (List.mem_append.1 hmember).elim (hm v.1 member) (hn v.2 member)

theorem imap {f : α → β} {g : β → α} {h : ∀ b, f (g b) = b} (hm : m.Recovers depth) :
    (m.imap f g h).Recovers depth :=
  fun b => hm (g b)

end Members.Recovers

/-! ## Records -/

namespace Codec.Recovers

variable {m : Members α} {n : Members β}

theorem objectRecord {nodup : m.names.Nodup} (hm : m.Recovers depth) :
    (m.objectRecord nodup).Recovers (depth + 1) :=
  fun v => .object (hm v)

theorem record {nodup : m.names.Nodup} (hm : m.Recovers depth) :
    (m.record nodup).Recovers (depth + 1) :=
  fun v => .object (hm v)

theorem fullRecord {nodup : m.names.Nodup} (hm : m.Recovers depth) :
    (m.fullRecord nodup).Recovers (depth + 1) :=
  fun v => .object (hm v)

theorem openRecord {apart : ∀ name ∈ m.names, name ∉ n.names}
    {nodup : (m.and n apart).names.Nodup} (hm : m.Recovers depth) (hn : n.Recovers depth) :
    (Members.openRecord m n apart nodup).Recovers (depth + 1) :=
  fun v => .object (Members.Recovers.and hm hn v)

end Codec.Recovers

end Supergraph.Json
