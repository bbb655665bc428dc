import Supergraph.Introspection.DiskCache
import Supergraph.Proofs.Files.Places

/-!
# What a cache on disk does

Reading an entry gives the text of one file and changes nothing (`perform_read`). A writer's step
has one of five effects (`Effect`): it makes directories at most, empties its draft or makes it,
fills the file it holds, or moves its draft to its entry.

The fingerprints are digests, so every entry and every draft has a place of its own.
-/

namespace Supergraph

/-- Whether a fingerprint is one of a configuration. -/
def Fingerprint.IsDigest (fingerprint : Fingerprint) : Prop :=
  ∃ kind configuration, fingerprint = .of kind configuration

theorem Fingerprint.IsDigest.noSlash {fingerprint : Fingerprint} (h : fingerprint.IsDigest) :
    '/' ∉ fingerprint.hex.toList := by
  obtain ⟨kind, configuration, rfl⟩ := h
  have hdigit : ∀ n : Fin 16, '/' ≠ Text.hexChar n := by decide
  intro hmem
  rw [of, Sha256.hex, String.toList_ofList] at hmem
  obtain ⟨byte, -, hbyte⟩ := List.mem_flatMap.1 hmem
  have hlt : byte.toNat / 16 < 16 := Nat.div_lt_of_lt_mul byte.toNat_lt
  have hhigh := hdigit ⟨byte.toNat / 16, hlt⟩
  have hlow := hdigit ⟨byte.toNat % 16, Nat.mod_lt _ (by decide)⟩
  simp only [Sha256.hexByte, List.mem_cons, List.not_mem_nil, or_false] at hbyte
  exact hbyte.elim hhigh hlow

namespace DiskCache

open Files

/-! ## Names and places -/

variable {cache : DiskCache} {fingerprint : Fingerprint} {files : Files}

/-- The place of an entry, seen from a working directory. -/
def entryPlace (cache : DiskCache) (home : Place) (fingerprint : Fingerprint) : Place :=
  placeIn home cache.directory (fingerprint.hex ++ ".json")

/-- The place of a draft, seen from a working directory. -/
def draftPlace (cache : DiskCache) (home : Place) (fingerprint : Fingerprint) : Place :=
  placeIn home cache.directory ("." ++ fingerprint.hex ++ ".json.tmp")

theorem entryPlace_ne_root (cache : DiskCache) (home : Place) (fingerprint : Fingerprint) :
    cache.entryPlace home fingerprint ≠ [] :=
  placeIn_ne_root home _ _

theorem draftPlace_ne_root (cache : DiskCache) (home : Place) (fingerprint : Fingerprint) :
    cache.draftPlace home fingerprint ≠ [] :=
  placeIn_ne_root home _ _

theorem getLast?_entryName (fingerprint : Fingerprint) :
    (fingerprint.hex ++ ".json").toList.getLast? = some 'n' := by
  rw [String.toList_append, List.getLast?_append]
  rfl

theorem getLast?_draftName (fingerprint : Fingerprint) :
    ("." ++ fingerprint.hex ++ ".json.tmp").toList.getLast? = some 'p' := by
  rw [String.toList_append, List.getLast?_append]
  rfl

theorem isFileName_entryName (h : fingerprint.IsDigest) :
    IsFileName (fingerprint.hex ++ ".json") :=
  isFileName_of_getLast? (by simp [h.noSlash]) (getLast?_entryName fingerprint) (by decide)

theorem isFileName_draftName (h : fingerprint.IsDigest) :
    IsFileName ("." ++ fingerprint.hex ++ ".json.tmp") :=
  isFileName_of_getLast? (by simp [h.noSlash]) (getLast?_draftName fingerprint) (by decide)

theorem entryPlace_injective (cache : DiskCache) (home : Place) :
    Function.Injective (cache.entryPlace home) := fun one two h => by
  have hname := placeIn_injective _ _ h
  rcases one
  rcases two
  simpa using hname

theorem draftPlace_injective (cache : DiskCache) (home : Place) :
    Function.Injective (cache.draftPlace home) := fun one two h => by
  have hname := placeIn_injective _ _ h
  rcases one
  rcases two
  simpa using hname

theorem entryPlace_ne_draftPlace (cache : DiskCache) (home : Place)
    (fingerprint other : Fingerprint) :
    cache.entryPlace home fingerprint ≠ cache.draftPlace home other := fun h => by
  have hlast := congrArg (·.toList.getLast?) (placeIn_injective _ _ h)
  simp only [getLast?_entryName, getLast?_draftName] at hlast
  cases hlast

/-! ## Reading -/

theorem perform_read (fingerprint : Fingerprint) (files : Files) :
    perform (cache.read fingerprint).run files =
      (match files.textAt (cache.entryPath fingerprint) with
        | .ok text => .ok (some text)
        | .error error => if error = .notFound then .ok none else .error error, files) := by
  rw [read, perform_tryCatch, ExceptT.run_map, perform_map, perform_readText]
  rcases files.textAt (cache.entryPath fingerprint) with error | text
  · by_cases h : error = .notFound
    · simp only [Except.map, h, if_true]
      rfl
    · simp only [Except.map, h, if_false]
      rfl
  · rfl

theorem perform_raise {α : Type} (action : Action α) (files : Files) :
    (perform (raise action).run files).2 = (perform action.run files).2 := rfl

/-- Whether the file at a place holds exactly a text. -/
def Holds (files : Files) (place : Place) (text : String) : Prop :=
  ∃ handle, files.entry? place = some (.file handle) ∧ files.content handle = text.toByteArray

theorem toByteArray_of_fromUTF8? {bytes : ByteArray} {text : String}
    (h : String.fromUTF8? bytes = some text) : text.toByteArray = bytes := by
  unfold String.fromUTF8? at h
  split at h
  · cases h
    rfl
  · cases h

theorem holds_of_read (h : fingerprint.IsDigest) {text : String}
    (hread : (perform (cache.read fingerprint).run files).1 = .ok (some text)) :
    Holds files (cache.entryPlace files.home fingerprint) text := by
  rw [perform_read, textAt] at hread
  rcases hfind : files.find (.ofString (cache.entryPath fingerprint)) with
    error | ⟨place, _ | handle⟩
  · simp only [hfind] at hread
    split at hread <;> cases hread
  · simp only [hfind] at hread
    cases hread
  · obtain ⟨rfl, hentry⟩ := eq_placeIn_of_find (isFileName_entryName h) hfind
    rcases htext : String.fromUTF8? (files.content handle) with _ | found
    · simp only [hfind, htext] at hread
      cases hread
    · simp only [hfind, htext] at hread
      cases hread
      exact ⟨handle, hentry, (toByteArray_of_fromUTF8? htext).symm⟩

/-! ## Writing -/

/-- What a step of a writer does: to the writer itself, and to the files. -/
inductive Effect (cache : DiskCache) (fingerprint : Fingerprint) (text : String) (files : Files) :
    Writer → Writer → Files → Prop where
  | grows {writer next : Writer} {files' : Files} (hgrows : Grows files files')
      (hnext : next = .create ∨ next = .done) :
      Effect cache fingerprint text files writer next files'
  | truncates {handle : Handle}
      (hentry : files.entry? (cache.draftPlace files.home fingerprint) = some (.file handle)) :
      Effect cache fingerprint text files .create (.fill handle) (files.truncate handle)
  | makes (hentry : files.entry? (cache.draftPlace files.home fingerprint) = none) :
      Effect cache fingerprint text files .create (.fill files.contents.length)
        (files.fresh (cache.draftPlace files.home fingerprint))
  | fills {handle : Handle} :
      Effect cache fingerprint text files (.fill handle) .rename
        (files.fill handle text.toByteArray)
  | moves {entry : Entry}
      (hentry : files.entry? (cache.draftPlace files.home fingerprint) = some entry) :
      Effect cache fingerprint text files .rename .done
        ((files.erase (cache.draftPlace files.home fingerprint)).put
          (cache.entryPlace files.home fingerprint) entry)

/-- What a writer does after a step, where a failure is its end. -/
def Writer.after : Except FileError Writer → Writer
  | .ok next => next
  | .error _ => .done

theorem create_cases (h : fingerprint.IsDigest) (files : Files) :
    let draft := cache.draftPlace files.home fingerprint
    (∃ error, perform (create (cache.draftPath fingerprint)).run files = (.error error, files)) ∨
      (∃ handle, files.entry? draft = some (.file handle) ∧
        perform (create (cache.draftPath fingerprint)).run files =
          (.ok handle, files.truncate handle)) ∨
      (files.entry? draft = none ∧
        perform (create (cache.draftPath fingerprint)).run files =
          (.ok files.contents.length, files.fresh draft)) := by
  intro draft
  rw [perform_create]
  rcases htarget : files.target? (.ofString (cache.draftPath fingerprint)) with error | _ | place
  · exact .inl ⟨error, rfl⟩
  · exact .inl ⟨.isDirectory, rfl⟩
  · -- Whatever the directory is, the path ends with the name of the draft.
    obtain rfl : place = draft :=
      Option.some.inj (eq_placeIn_of_target (isFileName_draftName h) htarget)
    dsimp only
    by_cases hclosed : (Path.ofString (cache.draftPath fingerprint)).closed
    · exact .inl ⟨.isDirectory, by rw [if_pos hclosed]⟩
    · rw [if_neg hclosed]
      rcases hentry : files.entry? draft with _ | _ | handle
      · exact .inr (.inr ⟨rfl, rfl⟩)
      · exact .inl ⟨.isDirectory, rfl⟩
      · exact .inr (.inl ⟨handle, rfl, rfl⟩)

theorem rename_cases (h : fingerprint.IsDigest) (files : Files) :
    let draft := cache.draftPlace files.home fingerprint
    (∃ error, perform (rename (cache.draftPath fingerprint) (cache.entryPath fingerprint)).run files
        = (.error error, files)) ∨
      ∃ entry, files.entry? draft = some entry ∧
        perform (rename (cache.draftPath fingerprint) (cache.entryPath fingerprint)).run files =
          (.ok (), (files.erase draft).put (cache.entryPlace files.home fingerprint) entry) := by
  intro draft
  rw [perform_rename]
  rcases hfind : files.find (.ofString (cache.draftPath fingerprint)) with error | ⟨origin, entry⟩
  · exact .inl ⟨error, rfl⟩
  · obtain ⟨horigin, hentry⟩ := eq_placeIn_of_find (isFileName_draftName h) hfind
    obtain rfl : origin = draft := horigin
    dsimp only
    rcases htarget : files.target? (.ofString (cache.entryPath fingerprint)) with error | _ | place
    · exact .inl ⟨error, rfl⟩
    · exact .inl ⟨.isDirectory, rfl⟩
    · obtain rfl : place = cache.entryPlace files.home fingerprint :=
        Option.some.inj (eq_placeIn_of_target (isFileName_entryName h) htarget)
      dsimp only
      by_cases hdirectory :
          files.entry? (cache.entryPlace files.home fingerprint) = some .directory
      · exact .inl ⟨.isDirectory, by rw [if_pos hdirectory]⟩
      · rw [if_neg hdirectory]
        exact .inr ⟨entry, hentry, rfl⟩

theorem effect_step (h : fingerprint.IsDigest) (text : String) (writer : Writer) (files : Files) :
    let outcome := perform (writer.step cache fingerprint text).run files
    Effect cache fingerprint text files writer (.after outcome.1) outcome.2 := by
  have hstays {writer : Writer} : Effect cache fingerprint text files writer .done files :=
    .grows (.refl files) (.inr rfl)
  -- One case for each stage of the writer; a failure ends it and leaves the files.
  cases writer with
  | makeDirectory =>
    rw [Writer.step, perform_action_bind]
    have hgrows := onlyGrows_makeDirectories cache.directory files
    revert hgrows
    rcases perform (makeDirectories cache.directory).run files with ⟨_ | _, files'⟩
    · exact fun hgrows => .grows hgrows (.inr rfl)
    · exact fun hgrows => .grows hgrows (.inl rfl)
  | create =>
    rw [Writer.step, perform_action_bind]
    rcases create_cases h files with ⟨_, hcreate⟩ | ⟨_, hentry, hcreate⟩ | ⟨hentry, hcreate⟩
    · rw [hcreate]
      exact hstays
    · rw [hcreate]
      exact .truncates hentry
    · rw [hcreate]
      exact .makes hentry
  | fill draft => exact .fills
  | rename =>
    rw [Writer.step, perform_action_bind]
    rcases rename_cases h files with ⟨_, hrename⟩ | ⟨_, hentry, hrename⟩
    · rw [hrename]
      exact hstays
    · rw [hrename]
      exact .moves hentry
  | done => exact hstays

end DiskCache

end Supergraph
