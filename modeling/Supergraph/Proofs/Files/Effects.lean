import Supergraph.Files
import Supergraph.Proofs.Introspection.Steps

/-!
# What file operations do

One equation for each operation on files says what it gives and which files it leaves
(`perform_create`, `perform_rename` and their siblings). Reading changes nothing, and making
directories only adds directories where there was nothing (`Grows`).
-/

namespace Supergraph.Files

variable {files files' : Files} {α β : Type}

/-! ## Actions -/

theorem perform_map {σ : Type} (f : α → β) (action : StateM σ α) (s : σ) :
    perform (f <$> action) s = (f (perform action s).1, (perform action s).2) := rfl

theorem perform_lift_bind (x : Except FileError α) (next : α → Action β) (files : Files) :
    perform ((liftM x : Action α) >>= next).run files =
      match x with
      | .error error => (.error error, files)
      | .ok a => perform (next a).run files := by
  cases x <;> rfl

theorem perform_action_bind (action : Action α) (next : α → Action β) (files : Files) :
    perform (action >>= next).run files =
      match perform action.run files with
      | (.ok a, files') => perform (next a).run files'
      | (.error error, files') => (.error error, files') := by
  rw [ExceptT.run_bind, perform_bind]
  rcases perform action.run files with ⟨_ | _, _⟩ <;> rfl

theorem perform_tryCatch (action : Action α) (handler : FileError → Action α) (files : Files) :
    perform (tryCatch action handler).run files =
      match perform action.run files with
      | (.ok a, files') => (.ok a, files')
      | (.error error, files') => perform (handler error).run files' := by
  show perform (ExceptT.tryCatch action handler).run files = _
  rw [ExceptT.tryCatch, ExceptT.run_mk, perform_bind]
  rcases hrun : perform action.run files with ⟨_ | _, files'⟩
  · rw [show perform action files = _ from hrun]
    rfl
  · rw [show perform action files = _ from hrun]
    rfl

/-! ## Reading -/

/-- The text of the file that a path leads to. -/
def textAt (files : Files) (path : String) : Except FileError String :=
  match files.find (.ofString path) with
  | .error error => .error error
  | .ok (_, .directory) => .error .isDirectory
  | .ok (_, .file handle) =>
    match String.fromUTF8? (files.content handle) with
    | some text => .ok text
    | none => .error .invalidText

theorem perform_readText (files : Files) (path : String) :
    perform (readText path).run files = (files.textAt path, files) := by
  have hread : perform (read path).run files =
      (match files.find (.ofString path) with
        | .error error => .error error
        | .ok (_, .directory) => .error .isDirectory
        | .ok (_, .file handle) => .ok (files.content handle), files) := by
    show perform ((liftM (files.find (.ofString path)) : Action _) >>= _).run files = _
    rw [perform_lift_bind]
    rcases files.find (.ofString path) with error | ⟨place, _ | handle⟩ <;> rfl
  rw [readText, ExceptT.run_bind, perform_bind, hread, textAt]
  rcases files.find (.ofString path) with error | ⟨place, _ | handle⟩
  · rfl
  · rfl
  · dsimp only
    rcases String.fromUTF8? (files.content handle) with _ | text <;> rfl

/-! ## Creating and renaming -/

/-- The files with a new and empty one at a place. -/
def fresh (place : Place) (files : Files) : Files :=
  { files.put place (.file files.contents.length) with
    contents := files.contents ++ [ByteArray.empty] }

theorem perform_create (files : Files) (path : String) :
    perform (create path).run files =
      match files.target? (.ofString path) with
      | .error error => (.error error, files)
      | .ok none => (.error .isDirectory, files)
      | .ok (some place) =>
        if (Path.ofString path).closed then (.error .isDirectory, files)
        else
          match files.entry? place with
          | some .directory => (.error .isDirectory, files)
          | some (.file handle) => (.ok handle, files.truncate handle)
          | none => (.ok files.contents.length, files.fresh place) := by
  show perform ((liftM (files.target? (.ofString path)) : Action _) >>= _).run files = _
  rw [perform_lift_bind]
  rcases files.target? (.ofString path) with error | _ | place
  · rfl
  · rfl
  · dsimp only
    by_cases hclosed : (Path.ofString path).closed
    · rw [if_pos hclosed, if_pos hclosed]
      rfl
    · rw [if_neg hclosed, if_neg hclosed]
      rcases files.entry? place with _ | _ | handle <;> rfl

theorem perform_rename (files : Files) (source target : String) :
    perform (rename source target).run files =
      match files.find (.ofString source) with
      | .error error => (.error error, files)
      | .ok (origin, entry) =>
        match files.target? (.ofString target) with
        | .error error => (.error error, files)
        | .ok none => (.error .isDirectory, files)
        | .ok (some place) =>
          if files.entry? place = some .directory then (.error .isDirectory, files)
          else (.ok (), (files.erase origin).put place entry) := by
  show perform ((liftM (files.find (.ofString source)) : Action _) >>= _).run files = _
  rw [perform_lift_bind]
  rcases files.find (.ofString source) with error | ⟨origin, entry⟩
  · rfl
  · show perform ((liftM (files.target? (.ofString target)) : Action _) >>= _).run files = _
    rw [perform_lift_bind]
    rcases files.target? (.ofString target) with error | _ | place
    · rfl
    · rfl
    · dsimp only
      by_cases hdirectory : files.entry? place = some .directory
      · rw [if_pos hdirectory, if_pos hdirectory]
        rfl
      · rw [if_neg hdirectory, if_neg hdirectory]
        rfl

theorem perform_makeDirectory (files : Files) (path : Path) :
    perform (makeDirectory path).run files =
      match files.target? path with
      | .error error => (.error error, files)
      | .ok none => (.error .exists, files)
      | .ok (some place) =>
        if (files.entry? place).isSome then (.error .exists, files)
        else (.ok (), files.put place .directory) := by
  show perform ((liftM (files.target? path) : Action _) >>= _).run files = _
  rw [perform_lift_bind]
  rcases files.target? path with error | _ | place
  · rfl
  · rfl
  · dsimp only
    by_cases hentry : (files.entry? place).isSome
    · rw [if_pos hentry, if_pos hentry]
      rfl
    · rw [if_neg hentry, if_neg hentry]
      rfl

/-! ## What places and files hold afterwards -/

theorem lookup_filter_ne (entries : List (Place × Entry)) (place other : Place) :
    (entries.filter (·.1 ≠ place)).lookup other =
      if other = place then none else entries.lookup other := by
  induction entries with
  | nil => simp
  | cons entry rest ih =>
    obtain ⟨own, value⟩ := entry
    by_cases hown : own = place
    · rw [List.filter_cons_of_neg (by simpa using hown), ih]
      by_cases hother : other = place
      · rw [if_pos hother, if_pos hother]
      · have hne : (other == own) = false := by
          rw [hown]
          simpa using hother
        rw [if_neg hother, if_neg hother, List.lookup_cons, hne]
    · rw [List.filter_cons_of_pos (by simpa using hown), List.lookup_cons, List.lookup_cons, ih]
      by_cases hother : other = place
      · have hne : (other == own) = false := by
          rw [hother]
          simpa using fun h : place = own => hown h.symm
        simp only [if_pos hother, hne]
      · simp only [if_neg hother]

theorem entry?_erase {place : Place} (hplace : place ≠ []) (other : Place) :
    entry? (files.erase place) other =
      if other = place then none else files.entry? other := by
  simp only [erase, entry?]
  by_cases hroot : other = []
  · have hne : other ≠ place := fun h => hplace (h.symm.trans hroot)
    rw [if_pos hroot, if_neg hne, if_pos hroot]
  · rw [if_neg hroot, if_neg hroot, lookup_filter_ne]

theorem entry?_put {place : Place} (hplace : place ≠ []) (entry : Entry) (other : Place) :
    entry? (files.put place entry) other =
      if other = place then some entry else files.entry? other := by
  by_cases hother : other = place
  · rw [if_pos hother, hother]
    simp [put, entry?, hplace]
  · have hne : (other == place) = false := by simpa using hother
    have herase : entry? (files.erase place) other = _ := entry?_erase hplace other
    rw [if_neg hother] at herase ⊢
    rw [← herase]
    simp only [put, entry?, List.lookup_cons, hne]

theorem content_truncate (handle other : Handle) :
    (files.truncate handle).content other =
      if other = handle then ByteArray.empty else files.content other := by
  simp only [content, truncate, List.getD_eq_getElem?_getD, List.getElem?_set]
  by_cases hother : other = handle
  · subst hother
    by_cases hlt : other < files.contents.length <;> simp [hlt]
  · rw [if_neg (Ne.symm hother), if_neg hother]

theorem content_fill_ne {handle other : Handle} (h : other ≠ handle) (bytes : ByteArray) :
    (files.fill handle bytes).content other = files.content other := by
  simp only [content, fill, List.getD_eq_getElem?_getD, List.getElem?_set_ne (Ne.symm h)]

theorem content_fill_self {handle : Handle} (h : handle < files.contents.length)
    (hempty : files.content handle = ByteArray.empty) (bytes : ByteArray) :
    (files.fill handle bytes).content handle = bytes := by
  have hrest : ByteArray.empty.extract bytes.size ByteArray.empty.size = ByteArray.empty :=
    ByteArray.extract_eq_empty_iff.2 (by simp)
  rw [content, fill, hempty, hrest, ByteArray.append_empty]
  simp [h]

theorem content_fresh (place : Place) {handle : Handle} (h : handle < files.contents.length) :
    (files.fresh place).content handle = files.content handle := by
  simp only [content, fresh, List.getD_eq_getElem?_getD, List.getElem?_append_left h]

theorem content_fresh_self (place : Place) :
    (files.fresh place).content files.contents.length = ByteArray.empty := by
  simp [content, fresh]

/-! ## Making directories -/

/-- All is as it was, but for directories where there was nothing. -/
structure Grows (files files' : Files) : Prop where
  home : files'.home = files.home
  contents : files'.contents = files.contents
  entries : ∀ place, files'.entry? place = files.entry? place ∨
    (files.entry? place = none ∧ files'.entry? place = some .directory)

namespace Grows

theorem refl (files : Files) : Grows files files := ⟨rfl, rfl, fun _ => .inl rfl⟩

theorem trans {files'' : Files} (h : Grows files files') (h' : Grows files' files'') :
    Grows files files'' where
  home := h'.home.trans h.home
  contents := h'.contents.trans h.contents
  entries place := by
    rcases h'.entries place with hsame | ⟨hnone, hmade⟩
    · rw [hsame]
      exact h.entries place
    · rcases h.entries place with hsame | ⟨-, hmade'⟩
      · exact .inr ⟨hsame ▸ hnone, hmade⟩
      · rw [hmade'] at hnone
        cases hnone

theorem file_iff (h : Grows files files') {place : Place} {handle : Handle} :
    files'.entry? place = some (.file handle) ↔ files.entry? place = some (.file handle) := by
  rcases h.entries place with hsame | ⟨hnone, hmade⟩
  · rw [hsame]
  · simp [hnone, hmade]

theorem content (h : Grows files files') (handle : Handle) :
    files'.content handle = files.content handle := by
  rw [Files.content, Files.content, h.contents]

end Grows

/-- The action does nothing but make directories. -/
def OnlyGrows (action : Action α) : Prop := ∀ files, Grows files (perform action.run files).2

theorem OnlyGrows.bind {action : Action α} {next : α → Action β} (h : OnlyGrows action)
    (hnext : ∀ a, OnlyGrows (next a)) : OnlyGrows (action >>= next) := by
  intro files
  rw [perform_action_bind]
  have hfirst := h files
  revert hfirst
  rcases perform action.run files with ⟨_ | a, files'⟩
  · exact id
  · exact fun hfirst => hfirst.trans (hnext a files')

theorem OnlyGrows.tryCatch {action : Action α} {handler : FileError → Action α}
    (h : OnlyGrows action) (hhandler : ∀ error, OnlyGrows (handler error)) :
    OnlyGrows (tryCatch action handler) := by
  intro files
  rw [perform_tryCatch]
  have hfirst := h files
  revert hfirst
  rcases perform action.run files with ⟨error | _, files'⟩
  · exact fun hfirst => hfirst.trans (hhandler error files')
  · exact id

theorem onlyGrows_of_eq {action : Action α} (h : ∀ files, (perform action.run files).2 = files) :
    OnlyGrows action := fun files => by
  rw [h]
  exact .refl files

theorem onlyGrows_makeDirectory (path : Path) : OnlyGrows (makeDirectory path) := by
  intro files
  rw [perform_makeDirectory]
  rcases files.target? path with error | _ | place
  · exact .refl files
  · exact .refl files
  · dsimp only
    by_cases hentry : (files.entry? place).isSome
    · rw [if_pos hentry]
      exact .refl files
    · rw [if_neg hentry]
      have hnone : files.entry? place = none := by simpa using hentry
      have hplace : place ≠ [] := by
        rintro rfl
        cases hnone
      refine ⟨rfl, rfl, fun other => ?_⟩
      rw [entry?_put hplace]
      by_cases hother : other = place
      · exact .inr ⟨hother ▸ hnone, if_pos hother⟩
      · exact .inl (if_neg hother)

theorem onlyGrows_ensureDirectory (path : Path) : OnlyGrows (ensureDirectory path) := by
  refine (onlyGrows_makeDirectory path).tryCatch fun error => onlyGrows_of_eq fun files => ?_
  rw [perform_action_bind]
  show (perform (if ! files.isDirectory path then throw error else pure () : Action Unit).run
    files).2 = files
  cases files.isDirectory path <;> rfl

theorem onlyGrows_makeDirectoriesTo (absolute : Bool) (names : List String) :
    OnlyGrows (makeDirectoriesTo absolute names) := by
  induction names with
  | nil => exact onlyGrows_of_eq fun _ => rfl
  | cons name above ih =>
    refine (onlyGrows_ensureDirectory _).tryCatch fun error => ?_
    by_cases hmissing : error = .notFound
    · rw [if_neg fun h => h hmissing]
      exact ih.bind fun _ => onlyGrows_ensureDirectory _
    · rw [if_pos hmissing]
      exact onlyGrows_of_eq fun _ => rfl

theorem onlyGrows_makeDirectories (path : String) : OnlyGrows (makeDirectories path) :=
  onlyGrows_makeDirectoriesTo _ _

end Supergraph.Files
