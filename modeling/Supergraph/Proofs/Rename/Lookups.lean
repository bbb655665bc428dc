import Mathlib.Data.List.Nodup
import Supergraph.Rename

/-!
# New names

A list of renames is a list of pairs, an old name and a new one. For types there is one such list,
for fields there is one for each type. A name gets the new name of the first pair that it is the old
name of, and is kept if there is none.

Two lists, one after the other, do what both do at once if the second one has no new names for the
new names of the first one (`Joined`). Lists that mention no common name are joined in both orders
by the list of all pairs (`joined_append`, `joined_append_swap`). Turned around, a list gives a name
back if its new names are different and the name was not taken from another one
(`getD_lookup_swap`).
-/

namespace Supergraph

/-- Whether `both` finds at once what `first` and then `second` find. -/
structure Joined (first second both : String → Option String) : Prop where
  find_eq : ∀ name, both name = (first name).or (second name)
  kept : ∀ name, ∀ target ∈ first name, second target = none

namespace Joined

variable {first second both : String → Option String}

theorem getD_eq (h : Joined first second both) (name : String) :
    (both name).getD name = (second ((first name).getD name)).getD ((first name).getD name) := by
  rw [h.find_eq]
  cases hfirst : first name with
  | none => rfl
  | some target => simp [h.kept name target hfirst]

theorem isSome_eq (h : Joined first second both) (name : String) :
    (both name).isSome = ((first name).isSome || (second ((first name).getD name)).isSome) := by
  rw [h.find_eq]
  cases hfirst : first name with
  | none => rfl
  | some target => rfl

/-- A name that the first lookup changes is kept by the second one. -/
theorem getD_kept (h : Joined first second both) {name : String}
    (hchanged : (first name).getD name ≠ name) :
    (second ((first name).getD name)).getD ((first name).getD name) = (first name).getD name := by
  cases hfirst : first name with
  | none => simp [hfirst] at hchanged
  | some target => simp [h.kept name target hfirst]

/-- If the lookups know nothing of each other, their order does not matter. -/
theorem swap (h : Joined first second both) (hother : ∀ name, ∀ target ∈ second name,
    first name = none ∧ first target = none) : Joined second first both where
  find_eq name := by
    rw [h.find_eq]
    cases hsecond : second name with
    | none => rw [Option.or_none, Option.none_or]
    | some target => rw [(hother name target hsecond).1, Option.none_or, Option.some_or]
  kept name target htarget := (hother name target htarget).2

end Joined

/-! ## Pairs of names -/

namespace NewNames

variable {pairs first second : List (String × String)} {name target : String}

def names (pairs : List (String × String)) : List String :=
  pairs.map Prod.fst ++ pairs.map Prod.snd

/-- The first item with a name is found in the list of pairs that the items stand for. -/
theorem lookup_map {α : Type} (items : List α) (source target : α → String) (name : String) :
    (items.map fun item => (source item, target item)).lookup name =
      (items.find? (source · = name)).map target := by
  induction items with
  | nil => rfl
  | cons item rest ih =>
    rw [List.map_cons, List.lookup_cons, List.find?_cons, ih]
    by_cases h : source item = name
    · simp [h]
    · have hne : (name == source item) = false := beq_false_of_ne (Ne.symm h)
      simp [h, hne]

theorem mem_of_lookup (h : target ∈ pairs.lookup name) : (name, target) ∈ pairs := by
  obtain ⟨before, rest, rfl, -⟩ := List.lookup_eq_some_iff.1 h
  exact List.mem_append_right _ List.mem_cons_self

theorem lookup_eq_none (h : name ∉ pairs.map Prod.fst) : pairs.lookup name = none := by
  rw [List.lookup_eq_none_iff]
  intro pair hpair
  rw [bne_iff_ne]
  rintro rfl
  exact h (List.mem_map_of_mem hpair)

theorem lookup_of_nodup (h : (pairs.map Prod.fst).Nodup) (hmem : (name, target) ∈ pairs) :
    pairs.lookup name = some target := by
  cases hlookup : pairs.lookup name with
  | none => simpa using List.lookup_eq_none_iff.1 hlookup _ hmem
  | some other =>
    have hsame : (name, other) = (name, target) :=
      List.inj_on_of_nodup_map h (mem_of_lookup hlookup) hmem rfl
    rw [(Prod.mk.inj hsame).2]

section Disjoint

variable (h : (names first).Disjoint (names second))

include h

theorem lookup_eq_none_of_disjoint (htarget : target ∈ first.lookup name) :
    second.lookup name = none ∧ second.lookup target = none := by
  have hpair := mem_of_lookup htarget
  have hname : name ∈ names first := List.mem_append_left _ (List.mem_map_of_mem hpair)
  have htarget : target ∈ names first := List.mem_append_right _ (List.mem_map_of_mem hpair)
  exact ⟨lookup_eq_none fun hmem => h hname (List.mem_append_left _ hmem),
    lookup_eq_none fun hmem => h htarget (List.mem_append_left _ hmem)⟩

theorem joined_append :
    Joined (first.lookup ·) (second.lookup ·) ((first ++ second).lookup ·) where
  find_eq _ := List.lookup_append
  kept _ _ htarget := (lookup_eq_none_of_disjoint h htarget).2

theorem joined_append_swap :
    Joined (second.lookup ·) (first.lookup ·) ((first ++ second).lookup ·) :=
  (joined_append h).swap fun _ _ htarget =>
    lookup_eq_none_of_disjoint (fun _ hsecond hfirst => h hfirst hsecond) htarget

end Disjoint

/-- Names that were not in use before are given back, and so are names that are passed on. -/
theorem getD_lookup_swap (htargets : (pairs.map Prod.snd).Nodup)
    (hname : name ∈ pairs.map Prod.snd → name ∈ pairs.map Prod.fst) :
    ((pairs.map Prod.swap).lookup ((pairs.lookup name).getD name)).getD
      ((pairs.lookup name).getD name) = name := by
  have hfst : (pairs.map Prod.swap).map Prod.fst = pairs.map Prod.snd := List.map_map
  cases hlookup : pairs.lookup name with
  | some target =>
    have hpair : (target, name) ∈ pairs.map Prod.swap :=
      List.mem_map_of_mem (f := Prod.swap) (mem_of_lookup hlookup)
    rw [Option.getD_some, lookup_of_nodup (hfst ▸ htargets) hpair, Option.getD_some]
  | none =>
    have hunnamed : name ∉ pairs.map Prod.snd := by
      intro htarget
      obtain ⟨pair, hpair, rfl⟩ := List.mem_map.1 (hname htarget)
      simpa using List.lookup_eq_none_iff.1 hlookup pair hpair
    rw [Option.getD_none, lookup_eq_none (hfst ▸ hunnamed), Option.getD_none]

end NewNames

/-! ## Renames of types -/

namespace TypeRename

variable {renames first second : List TypeRename}

def names (renames : List TypeRename) : List String :=
  renames.map (·.source) ++ renames.map (·.target)

/-- A rename with its names exchanged. -/
def swap (r : TypeRename) : TypeRename := ⟨r.target, r.source⟩

/-- The old and the new names of types. -/
def pairs (renames : List TypeRename) : List (String × String) :=
  renames.map fun r => (r.source, r.target)

theorem find?_eq_lookup (renames : List TypeRename) :
    find? renames = ((pairs renames).lookup ·) := by
  funext name
  exact (NewNames.lookup_map renames (·.source) (·.target) name).symm

theorem names_pairs (renames : List TypeRename) :
    NewNames.names (pairs renames) = names renames := by
  rw [NewNames.names, pairs, List.map_map, List.map_map]
  rfl

theorem joined_append (h : (names first).Disjoint (names second)) :
    Joined (find? first) (find? second) (find? (first ++ second)) := by
  rw [← names_pairs, ← names_pairs] at h
  simp only [find?_eq_lookup, pairs, List.map_append]
  exact NewNames.joined_append h

theorem joined_append_swap (h : (names first).Disjoint (names second)) :
    Joined (find? second) (find? first) (find? (first ++ second)) := by
  rw [← names_pairs, ← names_pairs] at h
  simp only [find?_eq_lookup, pairs, List.map_append]
  exact NewNames.joined_append_swap h

theorem apply_swap {name : String} (htargets : (renames.map (·.target)).Nodup)
    (hname : name ∈ renames.map (·.target) → name ∈ renames.map (·.source)) :
    apply (renames.map swap) (apply renames name) = name := by
  have hswap : pairs (renames.map swap) = (pairs renames).map Prod.swap := by
    simp [pairs, swap]
  have hfst : (pairs renames).map Prod.fst = renames.map (·.source) := List.map_map
  have hsnd : (pairs renames).map Prod.snd = renames.map (·.target) := List.map_map
  -- Renames are a list of pairs, and taking them back turns the pairs around.
  simp only [apply, find?_eq_lookup, hswap]
  exact NewNames.getD_lookup_swap (hsnd ▸ htargets) (hsnd ▸ hfst ▸ hname)

end TypeRename

/-! ## Renames of fields -/

namespace FieldRename

variable {renames first second : List FieldRename} {typeName name : String}

/-- The field that is renamed. -/
def sourceField (r : FieldRename) : Coordinate := ⟨r.typeName, r.source⟩

/-- The field under its new name. -/
def targetField (r : FieldRename) : Coordinate := ⟨r.typeName, r.target⟩

/-- The fields that renames mention. -/
def mentioned (renames : List FieldRename) : List Coordinate :=
  renames.map (·.sourceField) ++ renames.map (·.targetField)

/-- A rename with its names exchanged. -/
def swap (r : FieldRename) : FieldRename := ⟨r.typeName, r.target, r.source⟩

/-- A rename that speaks of types by the names that `f` gives them. -/
def translate (f : String → String) (r : FieldRename) : FieldRename :=
  { r with typeName := f r.typeName }

/-- The old and the new names of the fields of a type. -/
def pairs (renames : List FieldRename) (typeName : String) : List (String × String) :=
  (renames.filter (·.typeName = typeName)).map fun r => (r.source, r.target)

theorem find?_eq_lookup (renames : List FieldRename) (typeName : String) :
    find? renames typeName = ((pairs renames typeName).lookup ·) := by
  funext name
  refine Eq.trans ?_
    (NewNames.lookup_map (renames.filter (·.typeName = typeName)) (·.source) (·.target) name).symm
  rw [List.find?_filter, find?]
  simp only [decide_eq_true_eq]

theorem mem_pairs {target : String} (h : (name, target) ∈ pairs renames typeName) :
    ∃ r ∈ renames, r.sourceField = ⟨typeName, name⟩ ∧
      r.targetField = ⟨typeName, target⟩ := by
  obtain ⟨r, hfiltered, hpair⟩ := List.mem_map.1 h
  obtain ⟨hr, htype⟩ := List.mem_filter.1 hfiltered
  obtain ⟨rfl, rfl⟩ := Prod.mk.inj hpair
  obtain rfl := of_decide_eq_true htype
  exact ⟨r, hr, rfl, rfl⟩

/-- A renamed field is the target of a rename, and has been its source. -/
theorem apply_cases (renames : List FieldRename) (typeName name : String) :
    apply renames typeName name = name ∨
      ∃ r ∈ renames, r.sourceField = ⟨typeName, name⟩ ∧
        r.targetField = ⟨typeName, apply renames typeName name⟩ := by
  cases hfind : find? renames typeName name with
  | none => exact .inl (by rw [apply, hfind, Option.getD_none])
  | some target =>
    have hlookup : (pairs renames typeName).lookup name = some target :=
      (congrFun (find?_eq_lookup renames typeName) name).symm.trans hfind
    rw [apply, hfind]
    exact .inr (mem_pairs (NewNames.mem_of_lookup hlookup))

theorem mem_mentioned_of_mem_names (h : name ∈ NewNames.names (pairs renames typeName)) :
    ⟨typeName, name⟩ ∈ mentioned renames := by
  rcases List.mem_append.1 h with h | h
  · obtain ⟨pair, hpair, rfl⟩ := List.mem_map.1 h
    obtain ⟨r, hr, hsource, -⟩ := mem_pairs hpair
    exact List.mem_append_left _ (List.mem_map.2 ⟨r, hr, hsource⟩)
  · obtain ⟨pair, hpair, rfl⟩ := List.mem_map.1 h
    obtain ⟨r, hr, -, htarget⟩ := mem_pairs hpair
    exact List.mem_append_right _ (List.mem_map.2 ⟨r, hr, htarget⟩)

section Disjoint

variable (h : (mentioned first).Disjoint (mentioned second)) (typeName : String)

include h

theorem disjoint_names_pairs : (NewNames.names (pairs first typeName)).Disjoint
    (NewNames.names (pairs second typeName)) := by
  intro name hfirst hsecond
  exact h (mem_mentioned_of_mem_names hfirst) (mem_mentioned_of_mem_names hsecond)

theorem joined_append : Joined (find? first typeName) (find? second typeName)
    (find? (first ++ second) typeName) := by
  simp only [find?_eq_lookup, pairs, List.filter_append, List.map_append]
  exact NewNames.joined_append (disjoint_names_pairs h typeName)

theorem joined_append_swap : Joined (find? second typeName) (find? first typeName)
    (find? (first ++ second) typeName) := by
  simp only [find?_eq_lookup, pairs, List.filter_append, List.map_append]
  exact NewNames.joined_append_swap (disjoint_names_pairs h typeName)

end Disjoint

/-- A name that was not in use before is given back. -/
theorem apply_swap (htargets : (renames.map (·.targetField)).Nodup)
    (hname : ⟨typeName, name⟩ ∉ renames.map (·.targetField)) :
    apply (renames.map swap) typeName (apply renames typeName name) = name := by
  have hswap : pairs (renames.map swap) typeName = (pairs renames typeName).map Prod.swap := by
    rw [pairs, List.filter_map, List.map_map, pairs, List.map_map]
    rfl
  have htargets : ((pairs renames typeName).map Prod.snd).Nodup := by
    have hsub : ((renames.filter (·.typeName = typeName)).map (·.targetField)).Nodup :=
      (List.filter_sublist.map _).nodup htargets
    have hfields : ((pairs renames typeName).map Prod.snd).map (Coordinate.mk typeName) =
        (renames.filter (·.typeName = typeName)).map (·.targetField) := by
      rw [pairs, List.map_map, List.map_map]
      refine List.map_congr_left ?_
      intro r hr
      obtain ⟨-, htype⟩ := List.mem_filter.1 hr
      exact congrArg (Coordinate.mk · r.target) (of_decide_eq_true htype).symm
    exact List.Nodup.of_map _ (hfields ▸ hsub)
  simp only [apply, find?_eq_lookup, hswap]
  refine NewNames.getD_lookup_swap htargets ?_
  intro htarget
  obtain ⟨pair, hpair, rfl⟩ := List.mem_map.1 htarget
  obtain ⟨r, hr, -, htarget⟩ := mem_pairs hpair
  exact absurd (List.mem_map.2 ⟨r, hr, htarget⟩) hname

/-- Renames find the same fields under new names of their types, if these are kept apart. -/
theorem find?_translate {f : String → String}
    (hf : ∀ r ∈ renames, f r.typeName = f typeName → r.typeName = typeName) (name : String) :
    find? (renames.map (translate f)) (f typeName) name = find? renames typeName name := by
  have hpairs : pairs (renames.map (translate f)) (f typeName) = pairs renames typeName := by
    have hfilter : renames.filter (f ·.typeName = f typeName) =
        renames.filter (·.typeName = typeName) := by
      refine List.filter_congr ?_
      intro r hr
      exact decide_eq_decide.2 ⟨hf r hr, congrArg f⟩
    rw [pairs, pairs, List.filter_map, List.map_map, ← hfilter]
    rfl
  rw [find?_eq_lookup, find?_eq_lookup, hpairs]

end FieldRename

end Supergraph
