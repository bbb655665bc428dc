/-!
# Maps in the order of their keys

A `SortedMap` is a list of entries with strictly increasing keys, compared by code points. Two maps
are equal iff they have the same entries.

`insertEntry` puts an entry into a sorted list, in place of one with the same key, and `sortEntries`
inserts all entries of a list one after the other, so that the last of several entries with one key
counts. A sorted list is left as it is.
-/

namespace Supergraph

variable {α β : Type}

/-- The entries are in strictly increasing order of their keys. -/
def KeysIncrease (entries : List (String × α)) : Prop :=
  entries.Pairwise fun a b => a.1 < b.1

/-- The entries with `key` set to `value`. -/
def insertEntry (key : String) (value : α) : List (String × α) → List (String × α)
  | [] => [(key, value)]
  | (other, old) :: rest =>
    if key < other then (key, value) :: (other, old) :: rest
    else if key = other then (key, value) :: rest
    else (other, old) :: insertEntry key value rest

/-- The entries in the order of their keys; the last entry of a key counts. -/
def sortEntries (entries : List (String × α)) : List (String × α) :=
  entries.foldl (fun sorted entry => insertEntry entry.1 entry.2 sorted) []

theorem mem_insertEntry {key : String} {value : α} {entries : List (String × α)} {entry}
    (h : entry ∈ insertEntry key value entries) : entry = (key, value) ∨ entry ∈ entries := by
  induction entries with
  | nil => simpa [insertEntry] using h
  | cons head rest ih =>
    simp only [insertEntry] at h
    split at h
    · simpa using h
    · split at h
      · rcases List.mem_cons.1 h with h | h
        · exact .inl h
        · exact .inr (List.mem_cons_of_mem _ h)
      · rcases List.mem_cons.1 h with h | h
        · exact .inr (h ▸ List.mem_cons_self)
        · exact (ih h).imp id (List.mem_cons_of_mem _)

theorem keysIncrease_insertEntry (key : String) (value : α) {entries : List (String × α)}
    (h : KeysIncrease entries) : KeysIncrease (insertEntry key value entries) := by
  induction entries with
  | nil => simp [insertEntry, KeysIncrease]
  | cons head rest ih =>
    obtain ⟨above, sorted⟩ := List.pairwise_cons.1 h
    simp only [insertEntry]
    split
    · rename_i less
      refine List.pairwise_cons.2 ⟨fun entry mem => ?_, h⟩
      rcases List.mem_cons.1 mem with rfl | mem
      · exact less
      · exact String.lt_trans less (above _ mem)
    · split
      · rename_i same
        exact List.pairwise_cons.2 ⟨fun entry mem => same ▸ above _ mem, sorted⟩
      · rename_i notLess different
        refine List.pairwise_cons.2 ⟨fun entry mem => ?_, ih sorted⟩
        rcases mem_insertEntry mem with rfl | mem
        · exact Std.lt_of_le_of_ne (String.not_lt.1 notLess) (Ne.symm different)
        · exact above _ mem

theorem keysIncrease_foldl_insertEntry (entries : List (String × α)) {sorted : List (String × α)}
    (h : KeysIncrease sorted) :
    KeysIncrease (entries.foldl (fun s entry => insertEntry entry.1 entry.2 s) sorted) := by
  induction entries generalizing sorted with
  | nil => exact h
  | cons entry rest ih => exact ih (keysIncrease_insertEntry _ _ h)

theorem keysIncrease_sortEntries (entries : List (String × α)) :
    KeysIncrease (sortEntries entries) :=
  keysIncrease_foldl_insertEntry entries .nil

theorem insertEntry_of_above (key : String) (value : α) {entries : List (String × α)}
    (h : ∀ entry ∈ entries, entry.1 < key) :
    insertEntry key value entries = entries ++ [(key, value)] := by
  induction entries with
  | nil => rfl
  | cons head rest ih =>
    have below := h head List.mem_cons_self
    simp only [insertEntry, List.cons_append]
    rw [if_neg (String.lt_asymm below),
      if_neg (fun same => String.lt_irrefl _ (same ▸ below)),
      ih fun entry mem => h entry (List.mem_cons_of_mem _ mem)]

theorem foldl_insertEntry_of_above (entries : List (String × α)) {sorted : List (String × α)}
    (h : KeysIncrease (sorted ++ entries)) :
    entries.foldl (fun s entry => insertEntry entry.1 entry.2 s) sorted = sorted ++ entries := by
  induction entries generalizing sorted with
  | nil => simp
  | cons entry rest ih =>
    have above : ∀ e ∈ sorted, e.1 < entry.1 := fun e mem =>
      (List.pairwise_append.1 h).2.2 e mem entry List.mem_cons_self
    rw [List.foldl_cons, insertEntry_of_above _ _ above, ih (by simpa using h)]
    simp

/-- Sorting keeps a sorted list. -/
theorem sortEntries_of_keysIncrease {entries : List (String × α)} (h : KeysIncrease entries) :
    sortEntries entries = entries := by
  have sorted : KeysIncrease ([] ++ entries) := by simpa using h
  simpa [sortEntries] using foldl_insertEntry_of_above entries sorted

theorem mem_foldl_insertEntry {entries sorted : List (String × α)} {entry}
    (h : entry ∈ entries.foldl (fun s e => insertEntry e.1 e.2 s) sorted) :
    entry ∈ entries ∨ entry ∈ sorted := by
  induction entries generalizing sorted with
  | nil => exact .inr h
  | cons head rest ih =>
    rcases ih h with h | h
    · exact .inl (List.mem_cons_of_mem _ h)
    · rcases mem_insertEntry h with rfl | h
      · exact .inl List.mem_cons_self
      · exact .inr h

theorem mem_of_mem_sortEntries {entries : List (String × α)} {entry}
    (h : entry ∈ sortEntries entries) : entry ∈ entries := by
  simpa using mem_foldl_insertEntry h

/-- A map in the order of its keys. -/
structure SortedMap (α : Type) where
  entries : List (String × α)
  increasing : KeysIncrease entries
deriving DecidableEq

namespace SortedMap

instance : Inhabited (SortedMap α) := ⟨⟨[], .nil⟩⟩

def empty : SortedMap α := ⟨[], .nil⟩

/-- The map with the given entries; the last entry of a key counts. -/
def ofList (entries : List (String × α)) : SortedMap α :=
  ⟨sortEntries entries, keysIncrease_sortEntries entries⟩

theorem ofList_entries (map : SortedMap α) : ofList map.entries = map := by
  rcases map with ⟨entries, increasing⟩
  simp [ofList, sortEntries_of_keysIncrease increasing]

def map (f : α → β) (map : SortedMap α) : SortedMap β :=
  ⟨map.entries.map fun entry => (entry.1, f entry.2), by
    exact List.pairwise_map.2 (map.increasing.imp fun {_ _} less => less)⟩

end SortedMap

end Supergraph
