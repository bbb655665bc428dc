import Supergraph.Proofs.Files.Effects

/-!
# Where a path leads

Whether a path leads anywhere depends on the directories that are there, but where it leads to does
not: the names of the path decide (`lead`), and a name in a directory is always at the same place
(`placeIn`), for whoever reads, makes or moves what is there.
-/

namespace Supergraph.Files

variable {files : Files}

/-! ## Walks -/

/-- The place that names lead to where all directories on the way are there. -/
def lead : Place → List String → Place
  | place, [] => place
  | place, name :: rest =>
    if name = "." then lead place rest
    else if name = ".." then lead place.dropLast rest
    else lead (place ++ [name]) rest

theorem eq_lead_of_walk {place found : Place} {names : List String}
    (h : files.walk place names = .ok found) : found = lead place names := by
  induction names generalizing place with
  | nil => exact (Except.ok.inj h).symm
  | cons name rest ih =>
    rw [walk] at h
    rw [lead]
    rcases hentry : files.entry? place with _ | _ | handle
    · rw [hentry] at h
      cases h
    · rw [hentry] at h
      dsimp only at h
      by_cases hdot : name = "."
      · rw [if_pos hdot] at h ⊢
        exact ih h
      · rw [if_neg hdot] at h ⊢
        by_cases hdots : name = ".."
        · rw [if_pos hdots] at h ⊢
          exact ih h
        · rw [if_neg hdots] at h ⊢
          exact ih h
    · rw [hentry] at h
      cases h

theorem lead_append (place : Place) (names more : List String) :
    lead place (names ++ more) = lead (lead place names) more := by
  induction names generalizing place with
  | nil => rfl
  | cons name rest ih =>
    rw [List.cons_append, lead, lead]
    split
    · exact ih place
    · split
      · exact ih _
      · exact ih _

/-- Whether a name is one of a file, as it stands at the end of a path. -/
structure IsFileName (name : String) : Prop where
  noSlash : '/' ∉ name.toList
  nonempty : name.toList ≠ []
  proper : Path.isProper name = true

theorem isFileName_of_getLast? {name : String} {last : Char} (hslash : '/' ∉ name.toList)
    (hlast : name.toList.getLast? = some last) (hdot : last ≠ '.') : IsFileName name where
  noSlash := hslash
  nonempty hnil := by simp [hnil] at hlast
  proper := by
    have hne (other : String) (hother : other.toList.getLast? = some '.') : name ≠ other := by
      rintro rfl
      exact hdot (Option.some.inj (hlast.symm.trans hother))
    simp [Path.isProper, hne "." rfl, hne ".." rfl]

theorem lead_fileName (place : Place) {name : String} (h : IsFileName name) :
    lead place [name] = place ++ [name] := by
  have hproper := h.proper
  simp only [Path.isProper, ne_eq, decide_not, Bool.and_eq_true, Bool.not_eq_true',
    decide_eq_false_iff_not] at hproper
  rw [lead, if_neg hproper.1, if_neg hproper.2, lead]

/-- The place of a name in the directory at a path. -/
def placeIn (home : Place) (directory name : String) : Place :=
  lead (if (Path.ofString directory).absolute then [] else home)
    (Path.ofString directory).names ++ [name]

theorem placeIn_ne_root (home : Place) (directory name : String) :
    placeIn home directory name ≠ [] := by
  simp [placeIn]

theorem placeIn_injective (home : Place) (directory : String) :
    Function.Injective (placeIn home directory) := fun name name' h => by
  simpa [placeIn] using h

/-! ## Paths of names in directories -/

theorem namesFrom_slash (part text rest : List Char) :
    Path.namesFrom part (text ++ '/' :: rest) =
      Path.namesFrom part text ++ Path.namesFrom [] rest := by
  induction text generalizing part with
  | nil =>
    rw [List.nil_append, Path.namesFrom, Path.namesFrom]
    by_cases hpart : part.isEmpty <;> simp [hpart]
  | cons c text ih =>
    by_cases hc : c = '/'
    · subst hc
      rw [List.cons_append, Path.namesFrom, Path.namesFrom, ih]
      by_cases hpart : part.isEmpty <;> simp [hpart]
    · rw [List.cons_append, Path.namesFrom, Path.namesFrom, ih]
      · exact hc
      · exact hc

theorem namesFrom_of_noSlash {part text : List Char} (h : '/' ∉ text)
    (hne : part.reverse ++ text ≠ []) :
    Path.namesFrom part text = [.ofList (part.reverse ++ text)] := by
  induction text generalizing part with
  | nil =>
    have hpart : part.isEmpty = false := by simpa using hne
    rw [Path.namesFrom, hpart, List.append_nil]
    rfl
  | cons c text ih =>
    have hc : c ≠ '/' := fun hc => h (hc ▸ List.mem_cons_self)
    rw [Path.namesFrom, ih (fun hmem => h (List.mem_cons_of_mem _ hmem)) (by simp)]
    · simp
    · exact hc

/-- What stands in front of a name below a directory: the directory, and a slash behind it. -/
theorem exists_toList_join (directory name : String) :
    ∃ front, (Path.join directory name).toList = front ++ name.toList ∧
      (front = [] ∨ ∃ before, front = before ++ ['/']) ∧
      decide (front.head? = some '/') = (Path.ofString directory).absolute ∧
      Path.namesFrom [] front = (Path.ofString directory).names := by
  rcases hdirectory : directory.toList.eq_nil_or_concat with hnil | ⟨before, last, hlast⟩
  · refine ⟨[], ?_, .inl rfl, ?_, ?_⟩
    · simp [Path.join, hnil]
    · simp [Path.ofString, hnil]
    · simp [Path.ofString, hnil]
  · by_cases hslash : last = '/'
    · refine ⟨before ++ ['/'], ?_, .inr ⟨before, rfl⟩, ?_, ?_⟩
      · simp [Path.join, hlast, hslash]
      · simp [Path.ofString, hlast, hslash]
      · simp [Path.ofString, hlast, hslash]
    · refine ⟨before ++ [last] ++ ['/'], ?_, .inr ⟨_, rfl⟩, ?_, ?_⟩
      · simp [Path.join, hlast, hslash]
      · simp [Path.ofString, hlast]
      · rw [namesFrom_slash, Path.ofString, hlast]
        simp [Path.namesFrom]

/-- The path of a name in a directory. -/
theorem ofString_join (directory : String) {name : String} (h : IsFileName name) :
    Path.ofString (Path.join directory name) =
      ⟨(Path.ofString directory).absolute, (Path.ofString directory).names ++ [name], false⟩ := by
  obtain ⟨front, htext, hfront, habsolute, hnames⟩ := exists_toList_join directory name
  have hname : Path.namesFrom [] name.toList = [name] := by
    rw [namesFrom_of_noSlash h.noSlash (by simpa using h.nonempty)]
    simp
  obtain ⟨last, hlast⟩ := Option.ne_none_iff_exists'.1 (mt List.getLast?_eq_none_iff.1 h.nonempty)
  have hopen : last ≠ '/' := fun hslash => h.noSlash (hslash ▸ List.mem_of_getLast? hlast)
  have hclosed : (front ++ name.toList).getLast? = some last := by
    rw [List.getLast?_append, hlast]
    rfl
  rw [Path.ofString, htext, hclosed, ← habsolute, ← hnames]
  rcases hfront with rfl | ⟨before, rfl⟩
  · have hhead : name.toList.head? ≠ some '/' := fun hhead =>
      h.noSlash (List.mem_of_head? hhead)
    simp [hname, hopen, hhead, Path.namesFrom]
  · rw [List.append_assoc, List.singleton_append, namesFrom_slash, namesFrom_slash, hname]
    simp [hopen, Path.namesFrom]

/-- A file name in a directory leads to the same place whatever is there. -/
theorem eq_placeIn_of_find {directory name : String} (h : IsFileName name) {place : Place}
    {entry : Entry}
    (hfind : files.find (.ofString (Path.join directory name)) = .ok (place, entry)) :
    place = placeIn files.home directory name ∧ files.entry? place = some entry := by
  rw [ofString_join directory h, find, locate, if_neg (by simp [Path.isEmpty])] at hfind
  rcases hwalk : files.walk (if (Path.ofString directory).absolute then [] else files.home)
    ((Path.ofString directory).names ++ [name]) with error | found
  · rw [hwalk] at hfind
    cases hfind
  · rw [hwalk] at hfind
    have hplace : found = placeIn files.home directory name := by
      rw [eq_lead_of_walk hwalk, lead_append, lead_fileName _ h, placeIn]
    simp only [bind, Except.bind] at hfind
    rcases hentry : files.entry? found with _ | _ | handle
    · rw [hentry] at hfind
      cases hfind
    · rw [hentry] at hfind
      cases hfind
      exact ⟨hplace, hentry⟩
    · rw [hentry] at hfind
      cases hfind
      exact ⟨hplace, hentry⟩

theorem eq_placeIn_of_target {directory name : String} (h : IsFileName name)
    {place : Option Place}
    (htarget : files.target? (.ofString (Path.join directory name)) = .ok place) :
    place = some (placeIn files.home directory name) := by
  rw [ofString_join directory h, target?, locate, if_neg (by simp [Path.isEmpty])] at htarget
  rcases hwalk : files.walk (if (Path.ofString directory).absolute then [] else files.home)
    ((Path.ofString directory).names ++ [name]).dropLast with error | found
  · rw [hwalk] at htarget
    cases htarget
  · rw [hwalk] at htarget
    rw [List.dropLast_concat] at hwalk
    simp only [bind, Except.bind] at htarget
    rcases hentry : files.entry? found with _ | _ | handle
    · rw [hentry] at htarget
      cases htarget
    · rw [hentry, List.getLast?_concat, Option.filter_some, if_pos h.proper,
        eq_lead_of_walk hwalk] at htarget
      exact (Except.ok.inj htarget).symm
    · rw [hentry] at htarget
      cases htarget

end Supergraph.Files
