import Supergraph.Error
import Supergraph.Introspection.Fingerprint

/-!
# Introspection caches

A `Cache` keeps one text per fingerprint. Reading and writing are actions of some monad and may
fail; what a failure means is decided by those who use the cache. `MemoryCache` is the state of a
cache that never fails.
-/

namespace Supergraph

/-- A store of texts by fingerprint. -/
structure Cache (m : Type → Type) where
  read : Fingerprint → ExceptT Error m (Option String)
  write : Fingerprint → String → ExceptT Error m Unit

/-- The same store in another monad. -/
def Cache.hoist {m n : Type → Type} (f : {α : Type} → m α → n α) (cache : Cache m) : Cache n where
  read fingerprint := f (cache.read fingerprint)
  write fingerprint text := f (cache.write fingerprint text)

/-- The texts of a cache in memory, each fingerprint once. -/
structure MemoryCache where
  entries : List (Fingerprint × String)
deriving DecidableEq, Repr, Inhabited

namespace MemoryCache

def empty : MemoryCache := ⟨[]⟩

def size (cache : MemoryCache) : Nat := cache.entries.length

def get? (cache : MemoryCache) (fingerprint : Fingerprint) : Option String :=
  (cache.entries.find? (·.1 = fingerprint)).map (·.2)

/-- Whether a fingerprint has an entry. -/
def contains (cache : MemoryCache) (fingerprint : Fingerprint) : Bool :=
  (cache.get? fingerprint).isSome

/-- Replaces the text of a fingerprint, or adds it at the end. -/
def put (fingerprint : Fingerprint) (text : String) :
    List (Fingerprint × String) → List (Fingerprint × String)
  | [] => [(fingerprint, text)]
  | entry :: rest =>
    if entry.1 = fingerprint then (fingerprint, text) :: rest
    else entry :: put fingerprint text rest

/-- The cache with a new text for a fingerprint. -/
def insert (cache : MemoryCache) (fingerprint : Fingerprint) (text : String) : MemoryCache :=
  ⟨put fingerprint text cache.entries⟩

theorem find?_put (fingerprint other : Fingerprint) (text : String)
    (entries : List (Fingerprint × String)) :
    (put fingerprint text entries).find? (·.1 = other) =
      if fingerprint = other then some (other, text) else entries.find? (·.1 = other) := by
  induction entries with
  | nil => by_cases h : fingerprint = other <;> simp [put, h]
  | cons entry rest ih =>
    obtain ⟨own, old⟩ := entry
    by_cases same : own = fingerprint <;> by_cases h : fingerprint = other <;>
      by_cases h' : own = other <;> simp_all [put]

/-- A new text is found under its own fingerprint and changes no other entry. -/
theorem get?_insert (cache : MemoryCache) (fingerprint other : Fingerprint) (text : String) :
    (cache.insert fingerprint text).get? other =
      if fingerprint = other then some text else cache.get? other := by
  simp only [get?, insert, find?_put]
  split <;> rfl

theorem mem_entries_of_get? {cache : MemoryCache} {fingerprint : Fingerprint} {text : String}
    (h : cache.get? fingerprint = some text) : (fingerprint, text) ∈ cache.entries := by
  obtain ⟨⟨key, _⟩, hentry, rfl⟩ := Option.map_eq_some_iff.1 h
  have hkey := List.find?_some hentry
  obtain rfl : key = fingerprint := of_decide_eq_true hkey
  exact List.mem_of_find?_eq_some hentry

theorem mem_put {fingerprint : Fingerprint} {text : String}
    {entries : List (Fingerprint × String)} {entry : Fingerprint × String}
    (h : entry ∈ put fingerprint text entries) :
    entry = (fingerprint, text) ∨ entry ∈ entries := by
  induction entries with
  | nil => exact .inl (List.mem_singleton.1 h)
  | cons head rest ih =>
    rw [put] at h
    by_cases hsame : head.1 = fingerprint
    · rw [if_pos hsame] at h
      exact (List.mem_cons.1 h).imp_right (List.mem_cons_of_mem _)
    · rw [if_neg hsame] at h
      rcases List.mem_cons.1 h with rfl | h
      · exact .inr List.mem_cons_self
      · exact (ih h).imp_right (List.mem_cons_of_mem _)

/-- The cache whose texts are the state of a computation. -/
def access : Cache (StateM MemoryCache) where
  read fingerprint := do return (← get).get? fingerprint
  write fingerprint text := modify (·.insert fingerprint text)

end MemoryCache

end Supergraph
