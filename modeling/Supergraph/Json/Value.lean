import Supergraph.Json.Number
import Supergraph.SortedMap

/-!
# JSON values

The members of an object are kept in the order they are written in, repeated names included. A value
is *canonical* when the names of every object in it increase strictly; `Json.canonical` brings a
value into that form, where the last of several members with one name counts.

A text can follow the grammar and still hold what stands for no value, such as a number out of range
or half a surrogate pair. That place is `unreadable`; what never looks at it can read the rest. A
value without such places is *readable*.
-/

namespace Supergraph

/-- A JSON value. -/
inductive Json where
  | null
  | bool (value : Bool)
  | number (value : Json.Number)
  | string (text : String)
  | array (items : List Json)
  | object (members : List (String × Json))
  | unreadable
deriving Repr, Inhabited

namespace Json

/-! ## Equality -/

mutual

/-- Whether two values are equal. -/
def decEq : (a b : Json) → Decidable (a = b)
  | .null, .null => .isTrue rfl
  | .bool a, .bool b => decidable_of_iff (a = b) (by simp)
  | .number a, .number b => decidable_of_iff (a = b) (by simp)
  | .string a, .string b => decidable_of_iff (a = b) (by simp)
  | .array a, .array b =>
    match decEqItems a b with
    | .isTrue h => .isTrue (h ▸ rfl)
    | .isFalse h => .isFalse fun eq => h (Json.array.inj eq)
  | .object a, .object b =>
    match decEqMembers a b with
    | .isTrue h => .isTrue (h ▸ rfl)
    | .isFalse h => .isFalse fun eq => h (Json.object.inj eq)
  | .unreadable, .unreadable => .isTrue rfl
  | .null, .bool _ | .null, .number _ | .null, .string _ | .null, .array _ | .null, .object _
  | .null, .unreadable
  | .bool _, .null | .bool _, .number _ | .bool _, .string _ | .bool _, .array _
  | .bool _, .object _ | .bool _, .unreadable
  | .number _, .null | .number _, .bool _ | .number _, .string _ | .number _, .array _
  | .number _, .object _ | .number _, .unreadable
  | .string _, .null | .string _, .bool _ | .string _, .number _ | .string _, .array _
  | .string _, .object _ | .string _, .unreadable
  | .array _, .null | .array _, .bool _ | .array _, .number _ | .array _, .string _
  | .array _, .object _ | .array _, .unreadable
  | .object _, .null | .object _, .bool _ | .object _, .number _ | .object _, .string _
  | .object _, .array _ | .object _, .unreadable
  | .unreadable, .null | .unreadable, .bool _ | .unreadable, .number _ | .unreadable, .string _
  | .unreadable, .array _ | .unreadable, .object _ => .isFalse nofun

def decEqItems : (a b : List Json) → Decidable (a = b)
  | [], [] => .isTrue rfl
  | [], _ :: _ => .isFalse nofun
  | _ :: _, [] => .isFalse nofun
  | a :: as, b :: bs =>
    match decEq a b, decEqItems as bs with
    | .isTrue h, .isTrue h' => .isTrue (h ▸ h' ▸ rfl)
    | .isFalse h, _ => .isFalse fun eq => h (List.cons.inj eq).1
    | _, .isFalse h => .isFalse fun eq => h (List.cons.inj eq).2

def decEqMembers : (a b : List (String × Json)) → Decidable (a = b)
  | [], [] => .isTrue rfl
  | [], _ :: _ => .isFalse nofun
  | _ :: _, [] => .isFalse nofun
  | (name, a) :: as, (name', b) :: bs =>
    match decEq a b, decEqMembers as bs with
    | .isTrue h, .isTrue h' => decidable_of_iff (name = name') (by simp [h, h'])
    | .isFalse h, _ => .isFalse fun eq => h (Prod.mk.inj (List.cons.inj eq).1).2
    | _, .isFalse h => .isFalse fun eq => h (List.cons.inj eq).2

end

instance : DecidableEq Json := decEq

mutual

/-- The value with every zero that is a float taken as positive. -/
def unsignZeros : Json → Json
  | .number n => .number n.unsignZero
  | .array items => .array (unsignZerosItems items)
  | .object members => .object (unsignZerosMembers members)
  | .null => .null
  | .bool value => .bool value
  | .string text => .string text
  | .unreadable => .unreadable

def unsignZerosItems : List Json → List Json
  | [] => []
  | item :: rest => item.unsignZeros :: unsignZerosItems rest

def unsignZerosMembers : List (String × Json) → List (String × Json)
  | [] => []
  | (name, value) :: rest => (name, value.unsignZeros) :: unsignZerosMembers rest

end

/-- Whether two values are equal as numbers go: the zero floats of both signs are the same. -/
def alike (a b : Json) : Bool := a.unsignZeros = b.unsignZeros

/-! ## Readable values -/

mutual

/-- Whether all of a value can be read. -/
def isReadable : Json → Bool
  | .array items => areReadable items
  | .object members => membersAreReadable members
  | .null | .bool _ | .number _ | .string _ => true
  | .unreadable => false

def areReadable : List Json → Bool
  | [] => true
  | item :: rest => item.isReadable && areReadable rest

def membersAreReadable : List (String × Json) → Bool
  | [] => true
  | (_, value) :: rest => value.isReadable && membersAreReadable rest

end

@[simp] theorem isReadable_null : isReadable .null = true := rfl

@[simp] theorem isReadable_bool (value : Bool) : (bool value).isReadable = true := rfl

@[simp] theorem isReadable_number (value : Number) : (number value).isReadable = true := rfl

@[simp] theorem isReadable_string (text : String) : (string text).isReadable = true := rfl

@[simp] theorem isReadable_array (items : List Json) :
    (array items).isReadable = items.all isReadable := by
  induction items with
  | nil => rfl
  | cons item rest ih =>
    simp only [isReadable, List.all_cons] at ih ⊢
    rw [areReadable, ih]

@[simp] theorem isReadable_object (members : List (String × Json)) :
    (object members).isReadable = members.all fun member => member.2.isReadable := by
  induction members with
  | nil => rfl
  | cons member rest ih =>
    simp only [isReadable, List.all_cons] at ih ⊢
    rw [membersAreReadable, ih]

/-! ## Canonical form -/

mutual

/-- The value with the members of every object in the order of their names. What cannot be read
counts as `null`. -/
def canonical : Json → Json
  | .array items => .array (canonicalItems items)
  | .object members => .object (sortEntries (canonicalMembers members))
  | .null => .null
  | .bool value => .bool value
  | .number value => .number value
  | .string text => .string text
  | .unreadable => .null

def canonicalItems : List Json → List Json
  | [] => []
  | item :: rest => item.canonical :: canonicalItems rest

/-- The members, in their order, with their values in canonical form. -/
def canonicalMembers : List (String × Json) → List (String × Json)
  | [] => []
  | (name, value) :: rest => (name, value.canonical) :: canonicalMembers rest

end

theorem canonicalMembers_of_forall {members : List (String × Json)}
    (h : ∀ member ∈ members, member.2.canonical = member.2) :
    canonicalMembers members = members := by
  induction members with
  | nil => rfl
  | cons member rest ih =>
    rw [canonicalMembers, h member List.mem_cons_self,
      ih fun m mem => h m (List.mem_cons_of_mem _ mem)]

mutual

/-- A canonical value is its own canonical form. -/
theorem canonical_canonical : (value : Json) → value.canonical.canonical = value.canonical
  | .array items => by simp [canonical, canonicalItems_canonicalItems items]
  | .object members => by
    have each : ∀ member ∈ sortEntries (canonicalMembers members),
        member.2.canonical = member.2 := fun member mem =>
      canonical_of_mem_canonicalMembers members member (mem_of_mem_sortEntries mem)
    simp only [canonical, canonicalMembers_of_forall each,
      sortEntries_of_keysIncrease (keysIncrease_sortEntries _)]
  | .null => rfl
  | .bool _ => rfl
  | .number _ => rfl
  | .string _ => rfl
  | .unreadable => rfl

theorem canonicalItems_canonicalItems : (items : List Json) →
    canonicalItems (canonicalItems items) = canonicalItems items
  | [] => rfl
  | item :: rest => by
    simp [canonicalItems, canonical_canonical item, canonicalItems_canonicalItems rest]

theorem canonical_of_mem_canonicalMembers : (members : List (String × Json)) →
    ∀ member ∈ canonicalMembers members, member.2.canonical = member.2
  | [], _, mem => nomatch mem
  | (name, value) :: rest, member, mem => by
    rcases List.mem_cons.1 mem with rfl | mem
    · exact canonical_canonical value
    · exact canonical_of_mem_canonicalMembers rest member mem

end

mutual

/-- A canonical value is readable. -/
theorem isReadable_canonical : (value : Json) → value.canonical.isReadable = true
  | .array items => by
    simpa [canonical] using isReadable_of_mem_canonicalItems items
  | .object members => by
    simp only [canonical, isReadable_object, List.all_eq_true]
    exact fun member mem =>
      isReadable_of_mem_canonicalMembers members member (mem_of_mem_sortEntries mem)
  | .null => rfl
  | .bool _ => rfl
  | .number _ => rfl
  | .string _ => rfl
  | .unreadable => rfl

theorem isReadable_of_mem_canonicalItems : (items : List Json) →
    ∀ item ∈ canonicalItems items, item.isReadable = true
  | [], _, mem => nomatch mem
  | first :: rest, item, mem => by
    rcases List.mem_cons.1 mem with rfl | mem
    · exact isReadable_canonical first
    · exact isReadable_of_mem_canonicalItems rest item mem

theorem isReadable_of_mem_canonicalMembers : (members : List (String × Json)) →
    ∀ member ∈ canonicalMembers members, member.2.isReadable = true
  | [], _, mem => nomatch mem
  | (name, value) :: rest, member, mem => by
    rcases List.mem_cons.1 mem with rfl | mem
    · exact isReadable_canonical value
    · exact isReadable_of_mem_canonicalMembers rest member mem

end

/-- A JSON value in canonical form. -/
structure Canonical where
  value : Json
  canonical : value.canonical = value
deriving DecidableEq

instance : Inhabited Canonical := ⟨⟨.null, rfl⟩⟩

theorem Canonical.isReadable (c : Canonical) : c.value.isReadable = true :=
  c.canonical ▸ isReadable_canonical c.value

/-- The canonical form of a value. -/
def toCanonical (value : Json) : Canonical := ⟨value.canonical, canonical_canonical value⟩

end Json

end Supergraph
