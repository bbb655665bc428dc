import Mathlib.Data.List.Induction
import Supergraph.Proofs.Files.Places

/-!
# What stands in the way of a path

The places on the way of a path without `..` are longer and longer, so the first of them that is not
a directory decides what becomes of the path (`obstacle`): nothing is there, or a file is. Both
looking for what is there and making a new entry come as far as that (`walk_concat`).

**Theorem (`makeDirectories_cases`).** Where everything is in a directory (`IsTree`), making the
directories of a path without `..` does nothing if they are there, fails and does nothing if a file
is in the way, and otherwise makes the missing ones, on the way of the path and nowhere else.
-/

namespace Supergraph.Files

variable {files files' : Files} {place : Place} {names : List String} {name : String}

/-! ## Obstacles -/

/-- Why a path cannot go on from a place, if it cannot. -/
def block (files : Files) (place : Place) : Option FileError :=
  match files.entry? place with
  | none => some .notFound
  | some (.file _) => some .notDirectory
  | some .directory => none

/-- Why names cannot be followed from a place, to their end and into the directory there. -/
def obstacle (files : Files) (place : Place) : List String → Option FileError
  | [] => files.block place
  | name :: rest => (files.block place).or (files.obstacle (place ++ [name]) rest)

theorem block_eq_none : files.block place = none ↔ files.entry? place = some .directory := by
  unfold block
  rcases files.entry? place with _ | _ | handle <;> simp

theorem obstacle_of_block {error : FileError} (h : files.block place = some error)
    (names : List String) : files.obstacle place names = some error := by
  cases names with
  | nil => exact h
  | cons name rest => rw [obstacle, h, Option.some_or]

theorem obstacle_concat (files : Files) (place : Place) (names : List String) (name : String) :
    files.obstacle place (names ++ [name]) =
      (files.obstacle place names).or (files.block (place ++ names ++ [name])) := by
  induction names generalizing place with
  | nil => simp [obstacle]
  | cons other rest ih =>
    rw [List.cons_append, obstacle, ih, obstacle, Option.or_assoc, List.append_assoc place,
      List.singleton_append]

theorem block_of_obstacle_eq_none (h : files.obstacle place names = none) :
    files.entry? (place ++ names) = some .directory := by
  induction names generalizing place with
  | nil => simpa using block_eq_none.1 h
  | cons name rest ih =>
    rw [obstacle, Option.or_eq_none_iff] at h
    simpa using ih h.2

/-- Directories that stay leave the way as free as it was. -/
theorem obstacle_eq_none_of_directories
    (hstay : ∀ place, files.entry? place = some .directory → files'.entry? place = some .directory)
    (h : files.obstacle place names = none) : files'.obstacle place names = none := by
  induction names generalizing place with
  | nil => exact block_eq_none.2 (hstay place (block_eq_none.1 h))
  | cons name rest ih =>
    rw [obstacle, Option.or_eq_none_iff] at h ⊢
    exact ⟨block_eq_none.2 (hstay place (block_eq_none.1 h.1)), ih h.2⟩

theorem obstacle_cases (files : Files) (place : Place) (names : List String) :
    files.obstacle place names = none ∨ files.obstacle place names = some .notFound ∨
      files.obstacle place names = some .notDirectory := by
  have hblock : ∀ place, files.block place = none ∨ files.block place = some .notFound ∨
      files.block place = some .notDirectory := by
    intro place
    unfold block
    rcases files.entry? place with _ | _ | handle <;> simp
  induction names generalizing place with
  | nil => exact hblock place
  | cons name rest ih =>
    rw [obstacle]
    rcases hblock place with h | h | h
    · rw [h, Option.none_or]
      exact ih _
    · simp [h]
    · simp [h]

/-! ## Following a path -/

/-- The names that lead somewhere else. -/
def stepsOf (names : List String) : List String := names.filter (· ≠ ".")

theorem stepsOf_dot (rest : List String) : stepsOf ("." :: rest) = stepsOf rest :=
  List.filter_cons_of_neg (by simp)

theorem stepsOf_cons (h : name ≠ ".") (rest : List String) :
    stepsOf (name :: rest) = name :: stepsOf rest :=
  List.filter_cons_of_pos (by simpa using h)

theorem isProper_iff : Path.isProper name = true ↔ name ≠ "." ∧ name ≠ ".." := by
  simp [Path.isProper]

theorem walk_cons (files : Files) (place : Place) (rest : List String) :
    files.walk place (name :: rest) =
      match files.block place with
      | some error => .error error
      | none =>
        if name = "." then files.walk place rest
        else if name = ".." then files.walk place.dropLast rest
        else files.walk (place ++ [name]) rest := by
  rw [walk, block]
  rcases files.entry? place with _ | _ | handle <;> rfl

theorem walk_concat (hdots : ".." ∉ names) (hname : Path.isProper name = true) :
    files.walk place (names ++ [name]) =
      match files.obstacle place (stepsOf names) with
      | some error => .error error
      | none => .ok (place ++ stepsOf names ++ [name]) := by
  have hproper := isProper_iff.1 hname
  induction names generalizing place with
  | nil =>
    rw [List.nil_append, walk_cons, if_neg hproper.1, if_neg hproper.2, walk]
    simp [stepsOf, obstacle]
  | cons other rest ih =>
    obtain ⟨hother, hrest⟩ := List.ne_and_not_mem_of_not_mem_cons hdots
    rw [List.cons_append, walk_cons]
    cases hblock : files.block place with
    | some error => simp [obstacle_of_block hblock]
    | none =>
      dsimp only
      by_cases hdot : other = "."
      · subst hdot
        rw [if_pos rfl, stepsOf_dot, ih hrest]
      · rw [if_neg hdot, if_neg hother.symm, stepsOf_cons hdot, obstacle, hblock, Option.none_or,
          ih hrest, List.append_assoc place [other], List.singleton_append]

/-- The place where a path begins. -/
def start (files : Files) (absolute : Bool) : Place := if absolute then [] else files.home

theorem locate_concat (files : Files) (absolute closed : Bool) (names : List String)
    (name : String) :
    files.locate ⟨absolute, names ++ [name], closed⟩ (names ++ [name]) =
      files.walk (files.start absolute) (names ++ [name]) := by
  rw [locate, if_neg (by simp [Path.isEmpty])]
  rfl

/-- What is at the end of a path. -/
theorem find_concat (files : Files) (absolute : Bool) (hdots : ".." ∉ names)
    (hname : Path.isProper name = true) :
    let place := files.start absolute ++ stepsOf names ++ [name]
    files.find ⟨absolute, names ++ [name], false⟩ =
      match files.obstacle (files.start absolute) (stepsOf names) with
      | some error => .error error
      | none =>
        match files.entry? place with
        | none => .error .notFound
        | some entry => .ok (place, entry) := by
  intro place
  rw [find, locate_concat, walk_concat hdots hname]
  cases files.obstacle (files.start absolute) (stepsOf names) with
  | some error => rfl
  | none =>
    simp only [bind, Except.bind]
    rcases files.entry? place with _ | _ | handle <;> rfl

theorem walk_append (files : Files) (place : Place) (names more : List String) :
    files.walk place (names ++ more) =
      (files.walk place names).bind fun parent => files.walk parent more := by
  induction names generalizing place with
  | nil => rfl
  | cons other rest ih =>
    rw [List.cons_append, walk_cons, walk_cons]
    cases files.block place with
    | some error => rfl
    | none =>
      dsimp only
      split
      · exact ih place
      · split
        · exact ih _
        · exact ih _

/-- Where the end of a path would be made. -/
theorem target?_concat (files : Files) (absolute closed : Bool) (hdots : ".." ∉ names)
    (hname : Path.isProper name = true) :
    files.target? ⟨absolute, names ++ [name], closed⟩ =
      match files.obstacle (files.start absolute) (stepsOf names) with
      | some error => .error error
      | none => .ok (some (files.start absolute ++ stepsOf names ++ [name])) := by
  have hproper := isProper_iff.1 hname
  have htarget : files.target? ⟨absolute, names ++ [name], closed⟩ =
      (files.walk (files.start absolute) (names ++ [name])).map some := by
    rw [target?, locate, if_neg (by simp [Path.isEmpty]), List.dropLast_concat, walk_append]
    show (files.walk (files.start absolute) names).bind _ = _
    cases files.walk (files.start absolute) names with
    | error error => rfl
    | ok parent =>
      show (match files.entry? parent with
        | none => _ | some (.file _) => _ | some .directory => _) =
          (files.walk parent [name]).map some
      rw [walk_cons, block, List.getLast?_concat, Option.filter_some, if_pos hname]
      rcases files.entry? parent with _ | _ | handle
      · rfl
      · simp only [if_neg hproper.1, if_neg hproper.2, walk]
        rfl
      · rfl
  rw [htarget, walk_concat hdots hname]
  cases files.obstacle (files.start absolute) (stepsOf names) <;> rfl

/-! ## Trees -/

/-- Whether everything is in a directory. -/
def IsTree (files : Files) : Prop :=
  ∀ place, (files.entry? place).isSome → files.entry? place.dropLast = some .directory

theorem IsTree.directory (h : IsTree files) {more : List String} (hmore : more ≠ [])
    (hsome : (files.entry? (place ++ more)).isSome) : files.entry? place = some .directory := by
  induction more using List.reverseRecOn with
  | nil => exact absurd rfl hmore
  | append_singleton more last ih =>
    have hparent := h _ hsome
    rw [← List.append_assoc, List.dropLast_concat] at hparent
    by_cases hnil : more = []
    · rwa [hnil, List.append_nil] at hparent
    · exact ih hnil (by rw [hparent, Option.isSome_some])

/-- Nothing is in the way of what is there. -/
theorem IsTree.obstacle_eq_none (h : IsTree files) {more : List String} (hmore : more ≠ [])
    (hsome : (files.entry? (place ++ names ++ more)).isSome) :
    files.obstacle place names = none := by
  induction names generalizing place with
  | nil => exact block_eq_none.2 (h.directory hmore (by rwa [List.append_nil] at hsome))
  | cons other rest ih =>
    have hplace : files.entry? place = some .directory :=
      h.directory (List.cons_ne_nil other (rest ++ more)) (by simpa using hsome)
    rw [obstacle, block_eq_none.2 hplace, Option.none_or]
    exact ih (by simpa using hsome)

theorem lookup_map_const {ι : Type} (items : List ι) (f : ι → Place) (entry : Entry)
    (place : Place) :
    (items.map fun x => (f x, entry)).lookup place =
      if place ∈ items.map f then some entry else none := by
  induction items with
  | nil => rfl
  | cons x rest ih =>
    rw [List.map_cons, List.lookup_cons, ih]
    by_cases h : place = f x
    · simp [h]
    · simp [h, beq_eq_false_iff_ne.2 h]

/-- The tree with a working directory holds the directories on the way to it. -/
theorem entry?_ofHome (home place : Place) :
    entry? (ofHome home) place = if place <+: home then some .directory else none := by
  unfold entry?
  by_cases hroot : place = []
  · simp [hroot]
  · rw [if_neg hroot, ofHome, lookup_map_const]
    refine if_congr ?_ rfl rfl
    rw [List.mem_map]
    constructor
    · rintro ⟨n, -, rfl⟩
      exact List.take_prefix _ _
    · intro hprefix
      have hpos : 0 < place.length := List.length_pos_iff.2 hroot
      refine ⟨place.length - 1, List.mem_range.2 ?_, ?_⟩
      · have := hprefix.length_le
        omega
      · rw [Nat.sub_add_cancel hpos]
        exact (List.prefix_iff_eq_take.1 hprefix).symm

/-! ## Making directories -/

theorem perform_ensureDirectory (files : Files) (path : Path) :
    perform (ensureDirectory path).run files =
      match perform (makeDirectory path).run files with
      | (.ok made, files') => (.ok made, files')
      | (.error error, files') =>
        if files'.isDirectory path then (.ok (), files') else (.error error, files') := by
  rw [ensureDirectory, perform_tryCatch]
  rcases perform (makeDirectory path).run files with ⟨error | made, files'⟩
  · dsimp only
    rw [perform_action_bind]
    show perform (if ! files'.isDirectory path then throw error else pure () : Action Unit).run
      files' = if files'.isDirectory path then _ else _
    cases files'.isDirectory path <;> rfl
  · rfl

theorem ensureDirectory_concat (files : Files) (absolute : Bool) (hdots : ".." ∉ names)
    (hname : Path.isProper name = true) :
    let place := files.start absolute ++ stepsOf names ++ [name]
    perform (ensureDirectory ⟨absolute, names ++ [name], false⟩).run files =
      match files.obstacle (files.start absolute) (stepsOf names) with
      | some error => (.error error, files)
      | none =>
        match files.entry? place with
        | none => (.ok (), files.put place .directory)
        | some .directory => (.ok (), files)
        | some (.file _) => (.error .exists, files) := by
  have hfind := find_concat files absolute hdots hname
  rw [perform_ensureDirectory, perform_makeDirectory,
    target?_concat files absolute false hdots hname]
  generalize files.start absolute ++ stepsOf names ++ [name] = place at hfind ⊢
  cases hobstacle : files.obstacle (files.start absolute) (stepsOf names) with
  | some error => simp [isDirectory, hfind, hobstacle]
  | none => rcases hentry : files.entry? place with _ | _ | handle <;>
      simp [isDirectory, hfind, hobstacle, hentry]

/-- What is left when the directories of names were made: they are there, and nothing else is new.
-/
structure Clears (place : Place) (names : List String) (files files' : Files) : Prop where
  grows : Grows files files'
  tree : IsTree files'
  free : files'.obstacle place names = none
  beyond : ∀ other : Place, (place ++ names).length < other.length →
    files'.entry? other = files.entry? other

theorem clears_refl (htree : IsTree files) (h : files.obstacle place names = none) :
    Clears place names files files := ⟨.refl files, htree, h, fun _ _ => rfl⟩

/-- One more directory at the end. -/
theorem clears_put (htree : IsTree files) (h : files.obstacle place names = none)
    (hnone : files.entry? (place ++ names ++ [name]) = none) :
    Clears place (names ++ [name]) files (files.put (place ++ names ++ [name]) .directory) := by
  have hentry (other : Place) :
      entry? (files.put (place ++ names ++ [name]) .directory) other =
        if other = place ++ names ++ [name] then some .directory else files.entry? other :=
    entry?_put (by simp) .directory other
  have hstay : ∀ other, files.entry? other = some .directory →
      entry? (files.put (place ++ names ++ [name]) .directory) other = some .directory := by
    intro other hother
    rw [hentry]
    split
    · rfl
    · exact hother
  refine ⟨⟨rfl, rfl, fun other => ?_⟩, fun other hsome => ?_, ?_, fun other hlength => ?_⟩
  · rw [hentry]
    by_cases hother : other = place ++ names ++ [name]
    · exact .inr ⟨hother ▸ hnone, if_pos hother⟩
    · exact .inl (if_neg hother)
  · -- Only the new directory is new, and the one above it is there.
    rw [hentry] at hsome
    by_cases hother : other = place ++ names ++ [name]
    · rw [hother, List.dropLast_concat]
      exact hstay _ (block_of_obstacle_eq_none h)
    · rw [if_neg hother] at hsome
      exact hstay _ (htree other hsome)
  · rw [obstacle_concat, obstacle_eq_none_of_directories hstay h, Option.none_or, block_eq_none,
      hentry, if_pos rfl]
  · rw [hentry, if_neg]
    rintro rfl
    simp at hlength

theorem Clears.trans {files'' : Files} {more : List String} (h : Clears place names files files')
    (h' : Clears place (names ++ more) files' files'') :
    Clears place (names ++ more) files files'' where
  grows := h.grows.trans h'.grows
  tree := h'.tree
  free := h'.free
  beyond other hlength := by
    rw [h'.beyond other hlength, h.beyond other (by simp at hlength ⊢; omega)]

theorem perform_makeDirectoriesTo (absolute : Bool) (above : List String) (files : Files) :
    let path : Path := ⟨absolute, (name :: above).reverse, false⟩
    perform (makeDirectoriesTo absolute (name :: above)).run files =
      match perform (ensureDirectory path).run files with
      | (.ok made, files') => (.ok made, files')
      | (.error error, files') =>
        if error = .notFound then
          match perform (makeDirectoriesTo absolute above).run files' with
          | (.ok _, files'') => perform (ensureDirectory path).run files''
          | (.error error, files'') => (.error error, files'')
        else (.error error, files') := by
  intro path
  rw [makeDirectoriesTo, perform_tryCatch]
  rcases perform (ensureDirectory path).run files with ⟨error | made, files'⟩
  · dsimp only
    by_cases hmissing : error = .notFound
    · rw [if_neg fun h => h hmissing, if_pos hmissing]
      exact (perform_action_bind ..).trans (by
        rcases perform (makeDirectoriesTo absolute above).run files' with ⟨_ | _, _⟩ <;> rfl)
    · rw [if_pos hmissing, if_neg hmissing]
      rfl
  · rfl

theorem stepsOf_eq_self (h : ∀ name ∈ names, Path.isProper name = true) : stepsOf names = names :=
  List.filter_eq_self.2 fun name hname => decide_eq_true (isProper_iff.1 (h name hname)).1

theorem makeDirectoriesTo_cases (absolute : Bool) (htree : IsTree files)
    (hstart : files.entry? (files.start absolute) = some .directory)
    (hproper : ∀ name ∈ names, Path.isProper name = true) :
    (files.obstacle (files.start absolute) names = some .notDirectory ∧
      ∃ error, perform (makeDirectoriesTo absolute names.reverse).run files =
        (.error error, files)) ∨
    (files.obstacle (files.start absolute) names ≠ some .notDirectory ∧
      ∃ files', perform (makeDirectoriesTo absolute names.reverse).run files = (.ok (), files') ∧
        Clears (files.start absolute) names files files') := by
  induction names using List.reverseRecOn with
  | nil =>
    have hfree : files.obstacle (files.start absolute) [] = none := block_eq_none.2 hstart
    exact .inr ⟨by simp [hfree], files, rfl, clears_refl htree hfree⟩
  | append_singleton names name ih =>
    obtain ⟨hnames, hname⟩ := List.forall_mem_append.1 hproper
    have hname := hname name (List.mem_singleton_self name)
    have hdots : ".." ∉ names := fun h => (isProper_iff.1 (hnames _ h)).2 rfl
    have hensure (files : Files) := ensureDirectory_concat files absolute hdots hname
    rw [stepsOf_eq_self hnames] at hensure
    rw [List.reverse_append, List.reverse_singleton, List.singleton_append,
      perform_makeDirectoriesTo, List.reverse_cons, List.reverse_reverse, hensure, obstacle_concat]
    -- The directories in front of the last name are there, missing, or blocked by a file.
    rcases obstacle_cases files (files.start absolute) names with h | h | h
    · rw [h, Option.none_or]
      rcases hentry : files.entry? (files.start absolute ++ names ++ [name]) with _ | _ | handle
      · refine .inr ⟨by simp only [block, hentry]; decide, _, rfl, ?_⟩
        exact clears_put htree h hentry
      · refine .inr ⟨by simp only [block, hentry]; decide, files, rfl, clears_refl htree ?_⟩
        rw [obstacle_concat, h, block_eq_none.2 hentry, Option.none_or]
      · exact .inl ⟨by simp only [block, hentry], .exists, rfl⟩
    -- Something is missing before the last name, and then so is the last name.
    · rcases ih hnames with ⟨hfile, -⟩ | ⟨-, files', hmade, hclears⟩
      · rw [h] at hfile
        cases hfile
      · have hnone : files.entry? (files.start absolute ++ names ++ [name]) = none := by
          by_contra hsome
          have hfree := htree.obstacle_eq_none (List.cons_ne_nil name [])
            (Option.isSome_iff_ne_none.2 hsome)
          rw [h] at hfree
          cases hfree
        have hstart' : files'.start absolute = files.start absolute := by
          rw [start, start, hclears.grows.home]
        have hnone' : files'.entry? (files.start absolute ++ names ++ [name]) = none :=
          (hclears.beyond _ (by simp)).trans hnone
        rw [h, Option.some_or]
        dsimp only
        rw [if_pos rfl, hmade]
        dsimp only
        rw [hensure, hstart', hclears.free]
        dsimp only
        rw [hnone']
        exact .inr ⟨by simp, _, rfl, hclears.trans (clears_put hclears.tree hclears.free hnone')⟩
    · rw [h, Option.some_or]
      exact .inl ⟨rfl, .notDirectory, rfl⟩

/-- **Making directories** fails without a change where a file is in the way, and otherwise clears
the way. -/
theorem makeDirectories_cases (htree : IsTree files) {path : String}
    (hstart : files.entry? (files.start (Path.ofString path).absolute) = some .directory)
    (hdots : ".." ∉ (Path.ofString path).names) :
    let place := files.start (Path.ofString path).absolute
    let steps := stepsOf (Path.ofString path).names
    (files.obstacle place steps = some .notDirectory ∧
      ∃ error, perform (makeDirectories path).run files = (.error error, files)) ∨
    (files.obstacle place steps ≠ some .notDirectory ∧
      ∃ files', perform (makeDirectories path).run files = (.ok (), files') ∧
        Clears place steps files files') := by
  refine makeDirectoriesTo_cases _ htree hstart fun name hname => ?_
  obtain ⟨hmem, hdot⟩ := List.mem_filter.1 hname
  exact isProper_iff.2 ⟨of_decide_eq_true hdot, fun e => hdots (e ▸ hmem)⟩

end Supergraph.Files
