import Supergraph.Proofs.Files.Trees
import Supergraph.Proofs.Introspection.Drafts
import Supergraph.Proofs.Introspection.EntriesApart

/-!
# Entries of a cache on disk

What reading a fingerprint gives depends on two things only: whether the directory of the cache can
be made, and what is there in the place of the entry (`perform_read_eq`). What writing gives and
leaves depends on these two and on what is in the place of the draft (`write_cases`).

**Theorem (`keepsApart`).** Accesses of one fingerprint leave those of all others as they were. The
directory, which the first write makes for all of them, makes no difference: reading from a missing
directory and from an empty one give the same.

The files have to be orderly, as they are where nothing but directories has been made before
(`isOrderly_ofHome`), and the path of the directory must not go back up.

**Proof.** A write makes the directory, fills its draft and moves it. Each of the three leaves all
other places in the directory as they were (`Leaves`).
-/

namespace Supergraph

/-! ## What is to be seen -/

/-- What is to be seen at a place. -/
inductive Shown where
  | nothing
  | directory
  | file (content : ByteArray)

namespace Files

/-- What a place shows. -/
def shown (files : Files) (place : Place) : Shown :=
  match files.entry? place with
  | none => .nothing
  | some .directory => .directory
  | some (.file handle) => .file (files.content handle)

theorem shown_congr {files files' : Files} {place : Place}
    (hentry : files'.entry? place = files.entry? place)
    (hcontent : ∀ handle, files.entry? place = some (.file handle) →
      files'.content handle = files.content handle) : files'.shown place = files.shown place := by
  rw [shown, shown, hentry]
  rcases hplace : files.entry? place with _ | _ | handle
  · rfl
  · rfl
  · exact congrArg Shown.file (hcontent handle hplace)

theorem shown_eq_directory {files : Files} {place : Place} :
    files.shown place = .directory ↔ files.entry? place = some .directory := by
  rw [shown]
  rcases files.entry? place with _ | _ | handle <;> simp

end Files

namespace DiskCache

open Files

/-- Whether everything is in a directory, the working directory is there, and every file has one
name. -/
structure IsOrderly (files : Files) : Prop where
  separate : Separate files
  tree : IsTree files
  home : files.entry? files.home = some .directory

variable {cache : DiskCache} {fingerprint : Fingerprint} {files files' : Files}

theorem IsOrderly.start (h : IsOrderly files) (absolute : Bool) :
    files.entry? (files.start absolute) = some .directory := by
  cases absolute with
  | true => rfl
  | false => exact h.home

/-- Directories without files are orderly. -/
theorem isOrderly_ofHome (home : Place) : IsOrderly (Files.ofHome home) where
  separate := separate_ofHome home
  tree place hsome := by
    rw [entry?_ofHome] at hsome ⊢
    split at hsome
    · rw [if_pos ((List.dropLast_prefix place).trans ‹_›)]
    · cases hsome
  home := by
    rw [entry?_ofHome]
    exact if_pos (List.prefix_refl home)

/-! ## The directory -/

/-- The place of the directory. -/
def place (cache : DiskCache) (files : Files) : Place :=
  files.start (Path.ofString cache.directory).absolute ++
    stepsOf (Path.ofString cache.directory).names

/-- Why the directory cannot be reached, if it cannot. -/
def obstacle (cache : DiskCache) (files : Files) : Option FileError :=
  files.obstacle (files.start (Path.ofString cache.directory).absolute)
    (stepsOf (Path.ofString cache.directory).names)

/-- Files that leave all directories and the working directory where they are leave the directory
of the cache where it is. -/
theorem obstacle_stays (hfree : cache.obstacle files = none)
    (hstay : ∀ place, files.entry? place = some .directory → files'.entry? place = some .directory)
    (hhome : files'.home = files.home) : cache.obstacle files' = none := by
  rw [obstacle, start, hhome]
  exact obstacle_eq_none_of_directories hstay hfree

theorem directory_of_free (hfree : cache.obstacle files = none) :
    files.entry? (cache.place files) = some .directory :=
  block_of_obstacle_eq_none hfree

/-- What making the directory of a cache gives. -/
def made (cache : DiskCache) (files : Files) : Except FileError Unit :=
  (perform (makeDirectories cache.directory).run files).1

/-- Whether the directory is there, and shows what it showed but for some places. -/
structure Leaves (cache : DiskCache) (places : List Place) (files files' : Files) : Prop where
  orderly : IsOrderly files'
  home : files'.home = files.home
  free : cache.obstacle files' = none
  shown (name : String) (hname : placeIn files.home cache.directory name ∉ places) :
    files'.shown (placeIn files.home cache.directory name) =
      files.shown (placeIn files.home cache.directory name)

theorem Leaves.mono {places places' : List Place} (h : cache.Leaves places files files')
    (hsub : places ⊆ places') : cache.Leaves places' files files' :=
  ⟨h.orderly, h.home, h.free, fun name hname => h.shown name fun hmem => hname (hsub hmem)⟩

theorem Leaves.trans {files'' : Files} {places : List Place} (h : cache.Leaves places files files')
    (h' : cache.Leaves places files' files'') : cache.Leaves places files files'' where
  orderly := h'.orderly
  home := h'.home.trans h.home
  free := h'.free
  shown name hname := by
    have hname' := h'.shown name
    rw [h.home] at hname'
    rw [hname' hname, h.shown name hname]

/-! ## Places in the directory -/

/-- Whether the path of the directory does not go back up. -/
def IsPlain (cache : DiskCache) : Prop := ".." ∉ (Path.ofString cache.directory).names

theorem lead_eq (hplain : cache.IsPlain) (place : Place) :
    lead place (Path.ofString cache.directory).names =
      place ++ stepsOf (Path.ofString cache.directory).names := by
  unfold IsPlain at hplain
  generalize (Path.ofString cache.directory).names = names at hplain
  induction names generalizing place with
  | nil => exact (List.append_nil place).symm
  | cons name rest ih =>
    obtain ⟨hname, hrest⟩ := List.ne_and_not_mem_of_not_mem_cons hplain
    rw [lead]
    by_cases hdot : name = "."
    · rw [if_pos hdot, ih _ hrest, hdot, stepsOf_dot]
    · rw [if_neg hdot, if_neg hname.symm, ih _ hrest, stepsOf_cons hdot, List.append_assoc,
        List.singleton_append]

theorem placeIn_eq (hplain : cache.IsPlain) (files : Files) (name : String) :
    placeIn files.home cache.directory name = cache.place files ++ [name] := by
  rw [placeIn, lead_eq hplain]
  rfl

theorem find_join (hplain : cache.IsPlain) {name : String} (h : IsFileName name) (files : Files) :
    files.find (.ofString (Path.join cache.directory name)) =
      match cache.obstacle files with
      | some error => .error error
      | none =>
        match files.entry? (placeIn files.home cache.directory name) with
        | none => .error .notFound
        | some entry => .ok (placeIn files.home cache.directory name, entry) := by
  rw [ofString_join _ h, find_concat _ _ hplain h.proper, placeIn_eq hplain]
  rfl

theorem target?_join (hplain : cache.IsPlain) {name : String} (h : IsFileName name)
    (files : Files) :
    files.target? (.ofString (Path.join cache.directory name)) =
      match cache.obstacle files with
      | some error => .error error
      | none => .ok (some (placeIn files.home cache.directory name)) := by
  rw [ofString_join _ h, target?_concat _ _ _ hplain h.proper, placeIn_eq hplain]
  rfl

theorem shown_of_obstacle (hplain : cache.IsPlain) (htree : IsTree files) {error : FileError}
    (h : cache.obstacle files = some error) (name : String) :
    files.shown (placeIn files.home cache.directory name) = .nothing := by
  have hnone : files.entry? (placeIn files.home cache.directory name) = none := by
    by_contra hsome
    rw [placeIn_eq hplain] at hsome
    have hfree : cache.obstacle files = none :=
      htree.obstacle_eq_none (List.cons_ne_nil name []) (Option.isSome_iff_ne_none.2 hsome)
    rw [h] at hfree
    cases hfree
  rw [shown, hnone]

/-- Everything is still in a directory if only places in the directory of the cache are new. -/
theorem isTree_of_stays (hplain : cache.IsPlain) (htree : IsTree files)
    (hfree : cache.obstacle files = none)
    (hstay : ∀ place, files.entry? place = some .directory → files'.entry? place = some .directory)
    (hold : ∀ place, (files'.entry? place).isSome →
      (files.entry? place).isSome ∨ ∃ name, place = placeIn files.home cache.directory name) :
    IsTree files' := by
  intro place hsome
  rcases hold place hsome with hsome | ⟨name, rfl⟩
  · exact hstay _ (htree place hsome)
  · rw [placeIn_eq hplain, List.dropLast_concat]
    exact hstay _ (directory_of_free hfree)

/-! ## Making the directory -/

theorem makeDirectory_cases (hplain : cache.IsPlain) (h : IsOrderly files) :
    (cache.obstacle files = some .notDirectory ∧ ∃ error,
      perform (makeDirectories cache.directory).run files = (.error error, files)) ∨
    (cache.obstacle files ≠ some .notDirectory ∧ ∃ files',
      perform (makeDirectories cache.directory).run files = (.ok (), files') ∧
        cache.Leaves [] files files') := by
  refine (makeDirectories_cases h.tree (h.start _) hplain).imp id ?_
  rintro ⟨hobstacle, files', hmade, hclears⟩
  have heffect : Effect cache default "" files .makeDirectory .create files' :=
    .grows hclears.grows (.inl rfl)
  have hhome := hclears.grows.home
  refine ⟨hobstacle, files', hmade, ⟨⟨heffect.separate h.separate, hclears.tree, ?_⟩, hhome, ?_,
    fun name _ => shown_congr ?_ fun handle _ => hclears.grows.content handle⟩⟩
  · rw [hhome]
    rcases hclears.grows.entries files.home with hsame | ⟨hnone, -⟩
    · exact hsame.trans h.home
    · rw [h.home] at hnone
      cases hnone
  · rw [obstacle, start, hhome]
    exact hclears.free
  · refine hclears.beyond _ ?_
    rw [placeIn_eq hplain, place]
    simp

theorem made_of_obstacle (hplain : cache.IsPlain) (h : IsOrderly files)
    (hfree : cache.obstacle files = none) : cache.made files = .ok () := by
  rcases makeDirectory_cases hplain h with ⟨hobstacle, -⟩ | ⟨-, files', hmade, -⟩
  · rw [hfree] at hobstacle
    cases hobstacle
  · rw [made, hmade]

/-! ## Reading -/

/-- **What reading gives.** -/
theorem perform_read_eq (hplain : cache.IsPlain) (hdigest : fingerprint.IsDigest)
    (h : IsOrderly files) :
    (perform (cache.read fingerprint).run files).1 =
      match cache.made files, files.shown (cache.entryPlace files.home fingerprint) with
      | .error _, _ => .error .notDirectory
      | .ok _, .nothing => .ok none
      | .ok _, .directory => .error .isDirectory
      | .ok _, .file content =>
        match String.fromUTF8? content with
        | some text => .ok (some text)
        | none => .error .invalidText := by
  have hfind := find_join hplain (isFileName_entryName hdigest) files
  have hcases : cache.obstacle files = none ∨ cache.obstacle files = some .notFound ∨
      cache.obstacle files = some .notDirectory := obstacle_cases files _ _
  rw [perform_read, textAt, entryPath, hfind]
  rcases makeDirectory_cases hplain h with ⟨hobstacle, error, hmade⟩ | ⟨hobstacle, _, hmade, -⟩
  · rw [made, hobstacle, hmade]
    rfl
  · rw [made, hmade]
    rcases hcases with hfree | hmissing | hfile
    · rw [hfree, shown]
      rcases hentry : files.entry? (cache.entryPlace files.home fingerprint) with _ | _ | handle
      · rw [show files.entry? (placeIn _ _ _) = _ from hentry]
        rfl
      · rw [show files.entry? (placeIn _ _ _) = _ from hentry]
        rfl
      · rw [show files.entry? (placeIn _ _ _) = _ from hentry]
        dsimp only
        rcases String.fromUTF8? (files.content handle) with _ | text <;> rfl
    · have hshown : files.shown (cache.entryPlace files.home fingerprint) = .nothing :=
        shown_of_obstacle hplain h.tree hmissing _
      rw [hmissing, hshown]
      rfl
    · exact absurd hfile hobstacle

/-! ## Writing -/

/-- What writing gives and leaves in the places of the draft and the entry, from what was there. -/
def written (text : String) : Shown → Shown → Except FileError Unit × Shown × Shown
  | .directory, entry => (.error .isDirectory, .directory, entry)
  | _, .directory => (.error .isDirectory, .file text.toByteArray, .directory)
  | _, _ => (.ok (), .nothing, .file text.toByteArray)

theorem written_of_blocked {draft : Shown} (hdraft : draft ≠ .directory) (text : String) :
    written text draft .directory =
      (.error .isDirectory, .file text.toByteArray, .directory) := by
  cases draft with
  | directory => exact absurd rfl hdraft
  | nothing | file => rfl

theorem written_of_free {draft entry : Shown} (hdraft : draft ≠ .directory)
    (hentry : entry ≠ .directory) (text : String) :
    written text draft entry = (.ok (), .nothing, .file text.toByteArray) := by
  cases draft with
  | directory => exact absurd rfl hdraft
  | nothing | file =>
    cases entry with
    | directory => exact absurd rfl hentry
    | nothing | file => rfl

theorem write_eq (cache : DiskCache) (fingerprint : Fingerprint) (text : String) :
    cache.write fingerprint text = (do
      Files.makeDirectories cache.directory
      let draft ← Files.create (cache.draftPath fingerprint)
      modify (Files.fill draft text.toByteArray)
      Files.rename (cache.draftPath fingerprint) (cache.entryPath fingerprint)) := by
  simp [write, Writer.steps, Writer.step]

theorem perform_write (fingerprint : Fingerprint) (text : String) (files : Files) :
    perform (cache.write fingerprint text).run files =
      match perform (makeDirectories cache.directory).run files with
      | (.error error, files') => (.error error, files')
      | (.ok _, files') =>
        match perform (create (cache.draftPath fingerprint)).run files' with
        | (.error error, files'') => (.error error, files'')
        | (.ok draft, files'') =>
          perform (rename (cache.draftPath fingerprint) (cache.entryPath fingerprint)).run
            (files''.fill draft text.toByteArray) := by
  rw [write_eq, perform_action_bind]
  rcases perform (makeDirectories cache.directory).run files with ⟨error | _, files'⟩
  · rfl
  · dsimp only
    rw [perform_action_bind]
    rcases perform (create (cache.draftPath fingerprint)).run files' with ⟨error | draft, files''⟩
    · rfl
    · exact perform_action_bind ..

theorem perform_create_draft (hplain : cache.IsPlain) (hdigest : fingerprint.IsDigest)
    (hfree : cache.obstacle files = none) :
    let draft := cache.draftPlace files.home fingerprint
    perform (create (cache.draftPath fingerprint)).run files =
      match files.entry? draft with
      | some .directory => (.error .isDirectory, files)
      | some (.file handle) => (.ok handle, files.truncate handle)
      | none => (.ok files.contents.length, files.fresh draft) := by
  have hname := isFileName_draftName hdigest
  have htarget := target?_join hplain hname files
  rw [hfree] at htarget
  have hopen : ¬ (Path.ofString (cache.draftPath fingerprint)).closed := by
    rw [draftPath, ofString_join _ hname]
    simp
  rw [perform_create, show files.target? (.ofString (cache.draftPath fingerprint)) = _ from htarget]
  exact if_neg hopen

/-- The draft is there, and filled. -/
theorem leaves_fill_truncate (h : IsOrderly files) (hfree : cache.obstacle files = none)
    {handle : Handle}
    (hentry : files.entry? (cache.draftPlace files.home fingerprint) = some (.file handle))
    (text : String) :
    let draft := cache.draftPlace files.home fingerprint
    let files' := (files.truncate handle).fill handle text.toByteArray
    cache.Leaves [draft] files files' ∧ files'.shown draft = .file text.toByteArray := by
  intro draft files'
  have htruncates : Effect cache fingerprint text files .create _ (files.truncate handle) :=
    .truncates hentry
  have hseparate := htruncates.separate h.separate
  have hfills : Effect cache fingerprint text _ (.fill handle) _ files' := .fills
  have hcontent : files'.content handle = text.toByteArray := by
    refine content_fill_self ?_ ?_ _
    · exact hseparate.inRange draft handle hentry
    · rw [content_truncate, if_pos rfl]
  refine ⟨⟨⟨?_, h.tree, h.home⟩, rfl, ?_, fun name hname => ?_⟩, ?_⟩
  · exact hfills.separate hseparate
  · exact obstacle_stays hfree (fun _ => id) rfl
  · refine shown_congr rfl fun other hother => ?_
    -- The file has no other name, so what stands at the other places is not overwritten.
    have hne : other ≠ handle := by
      rintro rfl
      exact hname (List.mem_singleton.2 (h.separate.oneName _ _ _ hother hentry))
    rw [content_fill_ne hne, content_truncate, if_neg hne]
  · rw [shown, show files'.entry? draft = _ from hentry]
    exact congrArg Shown.file hcontent

/-- The draft is new, and filled. -/
theorem leaves_fill_fresh (hplain : cache.IsPlain) (h : IsOrderly files)
    (hfree : cache.obstacle files = none)
    (hentry : files.entry? (cache.draftPlace files.home fingerprint) = none) (text : String) :
    let draft := cache.draftPlace files.home fingerprint
    let files' := (files.fresh draft).fill files.contents.length text.toByteArray
    cache.Leaves [draft] files files' ∧ files'.shown draft = .file text.toByteArray := by
  intro draft files'
  have hdraft : draft ≠ [] := draftPlace_ne_root cache files.home fingerprint
  have hentry' : ∀ place, files'.entry? place =
      if place = draft then some (.file files.contents.length) else files.entry? place :=
    entry?_fresh hdraft
  have hstay : ∀ place, files.entry? place = some .directory →
      files'.entry? place = some .directory := by
    intro place hplace
    rw [hentry', if_neg, hplace]
    rintro rfl
    rw [show files.entry? draft = none from hentry] at hplace
    cases hplace
  have hmakes : Effect cache fingerprint text files .create _ (files.fresh draft) := .makes hentry
  have hseparate := hmakes.separate h.separate
  have hfills : Effect cache fingerprint text _ (.fill files.contents.length) _ files' := .fills
  have hcontent : files'.content files.contents.length = text.toByteArray := by
    refine content_fill_self ?_ (content_fresh_self draft) _
    simp [fresh]
  refine ⟨⟨⟨?_, isTree_of_stays hplain h.tree hfree hstay fun place hsome => ?_, hstay _ h.home⟩,
    rfl, obstacle_stays hfree hstay rfl, fun name hname => ?_⟩, ?_⟩
  · exact hfills.separate hseparate
  · rw [hentry'] at hsome
    by_cases hplace : place = draft
    · exact .inr ⟨_, hplace⟩
    · rw [if_neg hplace] at hsome
      exact .inl hsome
  · refine shown_congr ?_ fun other hother => ?_
    · rw [hentry', if_neg fun e => hname (List.mem_singleton.2 e)]
    · -- The draft is a new file, so no old place leads to it.
      have hlt := h.separate.inRange _ _ hother
      rw [content_fill_ne (Nat.ne_of_lt hlt), content_fresh draft hlt]
  · rw [shown, hentry', if_pos rfl]
    exact congrArg Shown.file hcontent

theorem perform_rename_draft (hplain : cache.IsPlain) (hdigest : fingerprint.IsDigest)
    (hfree : cache.obstacle files = none) {held : Entry}
    (hentry : files.entry? (cache.draftPlace files.home fingerprint) = some held) :
    let entry := cache.entryPlace files.home fingerprint
    perform (rename (cache.draftPath fingerprint) (cache.entryPath fingerprint)).run files =
      if files.entry? entry = some .directory then (.error .isDirectory, files)
      else (.ok (), (files.erase (cache.draftPlace files.home fingerprint)).put entry held) := by
  have hfind := find_join hplain (isFileName_draftName hdigest) files
  have htarget := target?_join hplain (isFileName_entryName hdigest) files
  rw [hfree] at hfind htarget
  dsimp only at hfind
  rw [show files.entry? (placeIn ..) = _ from hentry] at hfind
  rw [perform_rename, show files.find (.ofString (cache.draftPath fingerprint)) = _ from hfind,
    show files.target? (.ofString (cache.entryPath fingerprint)) = _ from htarget]
  rfl

/-- The draft becomes the entry. -/
theorem leaves_move (hplain : cache.IsPlain) (h : IsOrderly files)
    (hfree : cache.obstacle files = none) {handle : Handle}
    (hdraft : files.entry? (cache.draftPlace files.home fingerprint) = some (.file handle))
    (hentry : files.entry? (cache.entryPlace files.home fingerprint) ≠ some .directory) :
    let draft := cache.draftPlace files.home fingerprint
    let entry := cache.entryPlace files.home fingerprint
    let files' := (files.erase draft).put entry (.file handle)
    cache.Leaves [draft, entry] files files' ∧ files'.shown draft = .nothing ∧
      files'.shown entry = files.shown draft := by
  intro draft entry files'
  have hmoves : Effect cache fingerprint "" files .rename _ files' := .moves hdraft
  have hne : draft ≠ entry := (entryPlace_ne_draftPlace cache files.home _ _).symm
  have hentry' : ∀ place, files'.entry? place =
      if place = entry then some (.file handle)
      else if place = draft then none else files.entry? place :=
    entry?_move (draftPlace_ne_root cache files.home fingerprint)
      (entryPlace_ne_root cache files.home fingerprint) _
  -- Neither the draft nor the entry is a directory, so all directories stay.
  have hstay : ∀ place, files.entry? place = some .directory →
      files'.entry? place = some .directory := by
    intro place hplace
    rw [hentry', if_neg, if_neg, hplace]
    · rintro rfl
      rw [show files.entry? draft = _ from hdraft] at hplace
      cases hplace
    · rintro rfl
      exact hentry hplace
  refine ⟨⟨⟨?_, isTree_of_stays hplain h.tree hfree hstay fun place hsome => ?_, hstay _ h.home⟩,
    rfl, obstacle_stays hfree hstay rfl, fun name hname => ?_⟩, ?_, ?_⟩
  · exact hmoves.separate h.separate
  · rw [hentry'] at hsome
    by_cases hplace : place = entry
    · exact .inr ⟨_, hplace⟩
    · rw [if_neg hplace] at hsome
      split at hsome
      · cases hsome
      · exact .inl hsome
  · refine shown_congr ?_ fun _ _ => rfl
    rw [hentry', if_neg (by grind), if_neg (by grind)]
  · rw [shown, hentry', if_neg hne, if_pos rfl]
  · rw [shown, hentry', if_pos rfl, shown, show files.entry? draft = _ from hdraft]
    rfl

/-- Creating the draft and filling it. -/
theorem create_fill_cases (hplain : cache.IsPlain) (hdigest : fingerprint.IsDigest)
    (h : IsOrderly files) (hfree : cache.obstacle files = none) (text : String) :
    let draft := cache.draftPlace files.home fingerprint
    (files.shown draft = .directory ∧
      perform (create (cache.draftPath fingerprint)).run files = (.error .isDirectory, files)) ∨
    (files.shown draft ≠ .directory ∧ ∃ handle created,
      perform (create (cache.draftPath fingerprint)).run files = (.ok handle, created) ∧
        let filled := created.fill handle text.toByteArray
        filled.entry? draft = some (.file handle) ∧ cache.Leaves [draft] files filled ∧
          filled.shown draft = .file text.toByteArray) := by
  intro draft
  rw [perform_create_draft hplain hdigest hfree, shown]
  rcases hentry : files.entry? draft with _ | _ | handle
  · refine .inr ⟨Shown.noConfusion, _, _, rfl, ?_, leaves_fill_fresh hplain h hfree hentry text⟩
    exact (entry?_fresh (draftPlace_ne_root cache files.home fingerprint) draft).trans (if_pos rfl)
  · exact .inl ⟨rfl, rfl⟩
  · exact .inr ⟨Shown.noConfusion, handle, files.truncate handle, rfl, hentry,
      leaves_fill_truncate h hfree hentry text⟩

/-- Giving the draft the name of the entry. -/
theorem move_cases (hplain : cache.IsPlain) (hdigest : fingerprint.IsDigest) (h : IsOrderly files)
    (hfree : cache.obstacle files = none) {handle : Handle}
    (hheld : files.entry? (cache.draftPlace files.home fingerprint) = some (.file handle)) :
    let draft := cache.draftPlace files.home fingerprint
    let entry := cache.entryPlace files.home fingerprint
    let outcome := perform
      (rename (cache.draftPath fingerprint) (cache.entryPath fingerprint)).run files
    (files.shown entry = .directory ∧ outcome = (.error .isDirectory, files)) ∨
    (files.shown entry ≠ .directory ∧ ∃ files', outcome = (.ok (), files') ∧
      cache.Leaves [draft, entry] files files' ∧ files'.shown draft = .nothing ∧
        files'.shown entry = files.shown draft) := by
  intro draft entry outcome
  have houtcome := perform_rename_draft hplain hdigest hfree hheld
  by_cases hdirectory : files.entry? entry = some .directory
  · exact .inl ⟨shown_eq_directory.2 hdirectory, houtcome.trans (if_pos hdirectory)⟩
  · exact .inr ⟨mt shown_eq_directory.1 hdirectory, _, houtcome.trans (if_neg hdirectory),
      leaves_move hplain h hfree hheld hdirectory⟩

/-- **What writing does.** -/
theorem write_cases (hplain : cache.IsPlain) (hdigest : fingerprint.IsDigest)
    (h : IsOrderly files) (text : String) :
    let draft := cache.draftPlace files.home fingerprint
    let entry := cache.entryPlace files.home fingerprint
    let outcome := written text (files.shown draft) (files.shown entry)
    (∃ error, cache.made files = .error error ∧
      perform (cache.write fingerprint text).run files = (.error error, files)) ∨
    (cache.made files = .ok () ∧ ∃ files',
      perform (cache.write fingerprint text).run files = (outcome.1, files') ∧
        cache.Leaves [draft, entry] files files' ∧
        files'.shown draft = outcome.2.1 ∧ files'.shown entry = outcome.2.2) := by
  intro draft entry outcome
  rw [perform_write]
  rcases makeDirectory_cases hplain h with ⟨-, error, hmade⟩ | ⟨-, opened, hmade, hopened⟩
  · exact .inl ⟨error, by rw [made, hmade], by rw [hmade]⟩
  refine .inr ⟨by rw [made, hmade], ?_⟩
  rw [hmade]
  dsimp only
  have hdraft : opened.shown draft = files.shown draft := hopened.shown _ List.not_mem_nil
  have hentry : opened.shown entry = files.shown entry := hopened.shown _ List.not_mem_nil
  rcases create_fill_cases hplain hdigest hopened.orderly hopened.free text with
    ⟨hdirectory, hfails⟩ | ⟨hfile, handle, created, hcreated, hheld, hfilled, hshown⟩
  -- The draft is a directory.
  · rw [hopened.home] at hdirectory
    have houtcome : outcome = (.error .isDirectory, .directory, files.shown entry) := by
      simp only [outcome, hdraft.symm.trans hdirectory, written]
    rw [hfails, houtcome]
    exact ⟨opened, rfl, hopened.mono (List.nil_subset _), hdirectory, hentry⟩
  rw [hopened.home] at hfile hheld hshown
  rw [hdraft] at hfile
  rw [hcreated]
  dsimp only
  -- From here on it only matters what the filled directory leaves.
  generalize created.fill handle text.toByteArray = filled at *
  replace hfilled := (hopened.mono (List.nil_subset _)).trans hfilled
  rw [hopened.home] at hfilled
  have hentry' : filled.shown entry = files.shown entry :=
    hfilled.shown _ fun hmem => entryPlace_ne_draftPlace cache _ _ _ (List.mem_singleton.1 hmem)
  rw [← hfilled.home] at hheld
  rcases move_cases hplain hdigest hfilled.orderly hfilled.free hheld with
    ⟨hdirectory, hfails⟩ | ⟨hfree, moved, hmoves, hmoved, hgone, hthere⟩
  -- The entry is a directory, and the draft stays.
  · rw [hfilled.home, hentry'] at hdirectory
    have houtcome : outcome = (.error .isDirectory, .file text.toByteArray, .directory) := by
      simp only [outcome, hdirectory, written_of_blocked hfile]
    rw [hfails, houtcome]
    exact ⟨filled, rfl, hfilled.mono (by simp [draft]), hshown, hentry'.trans hdirectory⟩
  · rw [hfilled.home] at hfree hmoved hgone hthere
    rw [hentry'] at hfree
    have houtcome : outcome = (.ok (), .nothing, .file text.toByteArray) :=
      written_of_free hfile hfree text
    rw [hmoves, houtcome]
    exact ⟨moved, rfl, (hfilled.mono (by simp [draft])).trans hmoved, hgone, hthere.trans hshown⟩

theorem Leaves.made_eq {places : List Place} (h : cache.Leaves places files files')
    (hplain : cache.IsPlain) (hmade : cache.made files = .ok ()) :
    cache.made files' = cache.made files := by
  rw [hmade, made_of_obstacle hplain h.orderly h.free]

/-! ## Fingerprints apart -/

/-- Whether two directories of a cache are the same for a fingerprint. -/
structure Same (cache : DiskCache) (fingerprint : Fingerprint) (files files' : Files) : Prop where
  digest : fingerprint.IsDigest
  orderly : IsOrderly files
  orderly' : IsOrderly files'
  home : files.home = files'.home
  made : cache.made files = cache.made files'
  draft : files.shown (cache.draftPlace files.home fingerprint) =
    files'.shown (cache.draftPlace files.home fingerprint)
  entry : files.shown (cache.entryPlace files.home fingerprint) =
    files'.shown (cache.entryPlace files.home fingerprint)

theorem Same.refl (hdigest : fingerprint.IsDigest) (h : IsOrderly files) :
    cache.Same fingerprint files files :=
  ⟨hdigest, h, h, rfl, rfl, rfl, rfl⟩

/-- What a write for one fingerprint leaves is the same for all others. -/
theorem Leaves.same (hplain : cache.IsPlain) {other : Fingerprint} {files₀ : Files}
    (h : cache.Leaves [cache.draftPlace files.home fingerprint,
      cache.entryPlace files.home fingerprint] files files')
    (hmade : cache.made files = .ok ()) (hother : other ≠ fingerprint)
    (hsame : cache.Same other files files₀) : cache.Same other files' files₀ := by
  have hdraft : cache.draftPlace files.home other ∉ [cache.draftPlace files.home fingerprint,
      cache.entryPlace files.home fingerprint] := by
    have hne := (draftPlace_injective cache files.home).ne hother
    have hne' := (entryPlace_ne_draftPlace cache files.home fingerprint other).symm
    simp [hne, hne']
  have hentry : cache.entryPlace files.home other ∉ [cache.draftPlace files.home fingerprint,
      cache.entryPlace files.home fingerprint] := by
    have hne := (entryPlace_injective cache files.home).ne hother
    have hne' := entryPlace_ne_draftPlace cache files.home other fingerprint
    simp [hne, hne']
  refine ⟨hsame.digest, h.orderly, hsame.orderly', h.home.trans hsame.home,
    (h.made_eq hplain hmade).trans hsame.made, ?_, ?_⟩
  · rw [h.home]
    exact (h.shown _ hdraft).trans hsame.draft
  · rw [h.home]
    exact (h.shown _ hentry).trans hsame.entry

theorem Same.written (hplain : cache.IsPlain) (h : cache.Same fingerprint files files')
    (text : String) :
    (perform (cache.write fingerprint text).run files).1 =
        (perform (cache.write fingerprint text).run files').1 ∧
      cache.Same fingerprint (perform (cache.write fingerprint text).run files).2
        (perform (cache.write fingerprint text).run files').2 := by
  rcases write_cases hplain h.digest h.orderly text with
    ⟨error, hmade, hwrite⟩ | ⟨hmade, after, hwrite, hleaves, hdraft, hentry⟩
  · rcases write_cases hplain h.digest h.orderly' text with
      ⟨error', hmade', hwrite'⟩ | ⟨hmade', -⟩
    · -- Neither directory can be made, and both fail alike.
      obtain rfl : error = error' :=
        Except.error.inj (hmade.symm.trans (h.made.trans hmade'))
      rw [hwrite, hwrite']
      exact ⟨rfl, h⟩
    · rw [← h.made, hmade] at hmade'
      cases hmade'
  · rcases write_cases hplain h.digest h.orderly' text with
      ⟨error', hmade', -⟩ | ⟨hmade', after', hwrite', hleaves', hdraft', hentry'⟩
    · rw [← h.made, hmade] at hmade'
      cases hmade'
    · rw [← h.home, ← h.draft, ← h.entry] at hwrite' hdraft' hentry'
      rw [hwrite, hwrite']
      refine ⟨rfl, h.digest, hleaves.orderly, hleaves'.orderly, ?_, ?_, ?_, ?_⟩
      · rw [hleaves.home, hleaves'.home, h.home]
      · rw [hleaves.made_eq hplain hmade, hleaves'.made_eq hplain hmade', h.made]
      · rw [hleaves.home, hdraft, hdraft']
      · rw [hleaves.home, hentry, hentry']

/-- **A cache on disk keeps fingerprints apart.** -/
theorem keepsApart (hplain : cache.IsPlain) :
    (cache.access.hoist Routine.atomic).KeepsApart cache.Same := by
  have hraise {α : Type} (action : Action α) (files : Files) :
      (perform (raise action).run files).1 = (perform action.run files).1.mapError Error.file := rfl
  refine Cache.keepsApart_atomic (fun fingerprint s => ?_) (fun fingerprint s t hsame => ?_)
    (fun fingerprint text s t hsame => ?_)
    fun fingerprint text s t hsame other hother u hsame' => ?_
  · rw [access, perform_raise, perform_read]
  · rw [access, hraise, hraise, perform_read_eq hplain hsame.digest hsame.orderly,
      perform_read_eq hplain hsame.digest hsame.orderly', hsame.made, hsame.entry, hsame.home]
  · rw [access, hraise, hraise, perform_raise, perform_raise]
    obtain ⟨hresult, hafter⟩ := hsame.written hplain text
    exact ⟨congrArg _ hresult, hafter⟩
  · rw [access, perform_raise]
    rcases write_cases hplain hsame.digest hsame.orderly text with
      ⟨error, -, hwrite⟩ | ⟨hmade, after, hwrite, hleaves, -⟩
    · rwa [hwrite]
    · rw [hwrite]
      exact hleaves.same hplain hmade hother hsame'

end DiskCache

end Supergraph
