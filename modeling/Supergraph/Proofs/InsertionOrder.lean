import Mathlib.Data.List.Induction
import Mathlib.Data.List.Nodup
import Supergraph.FieldConfig

/-!
# Lists in insertion order

Node lists, field configurations and their arguments are kept as lists of entries with a key each. A
step changes the first entry with its key, or puts a changed blank one at the end.

**Theorem (`foldl_upsert`).** Steps that start from the empty list leave one entry per key, in the
order in which the keys came up first. The entry of a key is what the steps for that key make of a
blank entry; the other steps do not touch it.

The lists of names inside an entry are the case where the entry is its own key, and they keep the
first occurrence of every name (`List.eraseDups`).
-/

namespace Supergraph

/-! ## First occurrences -/

section FirstOccurrences

variable {α β : Type} [DecidableEq α] [DecidableEq β]

theorem eraseDups_concat (as : List α) (a : α) :
    (as ++ [a]).eraseDups = if a ∈ as then as.eraseDups else as.eraseDups ++ [a] := by
  rw [List.eraseDups_append]
  by_cases h : a ∈ as
  · simp [h, List.removeAll]
  · simp [h, List.removeAll, List.eraseDups_cons]

theorem nodup_eraseDups (as : List α) : as.eraseDups.Nodup := by
  induction as using List.reverseRecOn with
  | nil => simp
  | append_singleton as a ih =>
    rw [eraseDups_concat]
    split_ifs with h
    · exact ih
    · exact List.nodup_append.2 ⟨ih, List.nodup_singleton a, by grind [List.mem_eraseDups]⟩

theorem eraseDups_of_nodup {as : List α} (h : as.Nodup) : as.eraseDups = as := by
  induction as using List.reverseRecOn with
  | nil => rfl
  | append_singleton as a ih =>
    obtain ⟨hfront, -, hnew⟩ := List.nodup_append.1 h
    have ha : a ∉ as := fun ha => hnew a ha a (List.mem_singleton_self a) rfl
    rw [eraseDups_concat, if_neg ha, ih hfront]

/-- A function that keeps the elements of a list apart commutes with dropping repetitions. -/
theorem eraseDups_map {f : α → β} (as : List α)
    (hf : ∀ a ∈ as, ∀ b ∈ as, f a = f b → a = b) :
    (as.map f).eraseDups = as.eraseDups.map f := by
  -- From the end, because an element is dropped for those in front of it.
  induction as using List.reverseRecOn with
  | nil => rfl
  | append_singleton as a ih =>
    have ih := ih fun b hb c hc => hf b (by simp [hb]) c (by simp [hc])
    have hmem : f a ∈ as.map f ↔ a ∈ as := by
      refine ⟨fun h => ?_, List.mem_map_of_mem⟩
      obtain ⟨b, hb, hba⟩ := List.mem_map.1 h
      exact hf b (by simp [hb]) a (by simp) hba ▸ hb
    rw [List.map_append, List.map_singleton, eraseDups_concat, eraseDups_concat, ih]
    by_cases h : a ∈ as
    · rw [if_pos (hmem.2 h), if_pos h]
    · rw [if_neg (mt hmem.1 h), if_neg h, List.map_append, List.map_singleton]

end FirstOccurrences

/-! ## Entries with keys -/

section Keyed

variable {κ α σ : Type} [DecidableEq κ] {key : α → κ} {blank : κ → α} {change : α → α}

/-- Changes the first entry with the key `k`, or puts a changed blank one at the end. -/
def upsert (key : α → κ) (blank : κ → α) (change : α → α) (k : κ) : List α → List α
  | [] => [change (blank k)]
  | a :: rest => if key a = k then change a :: rest else a :: upsert key blank change k rest

/-- Of entries with different keys only one has the key of `a`. -/
theorem filter_key_of_mem {entries : List α} (hkeys : (entries.map key).Nodup) {a : α}
    (ha : a ∈ entries) : entries.filter (key · = key a) = [a] := by
  induction entries with
  | nil => exact absurd ha List.not_mem_nil
  | cons b rest ih =>
    obtain ⟨hb, hrest⟩ := List.nodup_cons.1 hkeys
    rcases List.mem_cons.1 ha with rfl | ha
    · have hnone : ∀ c ∈ rest, ¬ key c = key a := fun c hc e => hb (e ▸ List.mem_map_of_mem hc)
      rw [List.filter_cons_of_pos (by simp), List.filter_eq_nil_iff.2 (by simpa using hnone)]
    · have hne : ¬ key b = key a := fun e => hb (e ▸ List.mem_map_of_mem ha)
      rw [List.filter_cons_of_neg (by simpa using hne), ih hrest ha]

theorem filter_key_map {entry : κ → α} (hentry : ∀ k, key (entry k) = k) {ks : List κ}
    (hks : ks.Nodup) {k : κ} :
    (ks.map entry).filter (key · = k) = if k ∈ ks then [entry k] else [] := by
  have hkeys : (ks.map entry).map key = ks := by simp [Function.comp_def, hentry]
  split_ifs with hk
  · have h := filter_key_of_mem (hkeys.symm ▸ hks) (List.mem_map_of_mem hk)
    rwa [hentry] at h
  · refine List.filter_eq_nil_iff.2 fun a ha e => hk ?_
    rw [← of_decide_eq_true e, ← hkeys]
    exact List.mem_map_of_mem ha

theorem upsert_of_not_mem {k : κ} {entries : List α} (h : k ∉ entries.map key) :
    upsert key blank change k entries = entries ++ [change (blank k)] := by
  induction entries with
  | nil => rfl
  | cons entry rest ih =>
    obtain ⟨hentry, hrest⟩ := not_or.1 (mt List.mem_cons.2 h)
    rw [upsert, if_neg (Ne.symm hentry), ih hrest, List.cons_append]

/-- On a list with one entry per key, only the entry with the key `k` changes. -/
theorem upsert_map {entry : κ → α} (hentry : ∀ k, key (entry k) = k) (k : κ) (ks : List κ)
    (hks : ks.Nodup) :
    upsert key blank change k (ks.map entry) =
      if k ∈ ks then ks.map fun k' => if k' = k then change (entry k') else entry k'
      else ks.map entry ++ [change (blank k)] := by
  induction ks with
  | nil => rfl
  | cons k' ks ih =>
    obtain ⟨hk', hks⟩ := List.nodup_cons.1 hks
    rw [List.map_cons, upsert, hentry]
    by_cases h : k' = k
    · subst h
      have hrest : ks.map (fun k'' => if k'' = k' then change (entry k'') else entry k'') =
          ks.map entry :=
        List.map_congr_left fun k'' hk'' => if_neg fun (e : k'' = k') => hk' (e ▸ hk'')
      rw [if_pos rfl, if_pos List.mem_cons_self, List.map_cons, if_pos rfl, hrest]
    · rw [if_neg h, ih hks]
      by_cases hmem : k ∈ ks
      · simp [hmem, h]
      · simp [hmem, Ne.symm h]

variable {change : σ → α → α} {k : σ → κ}

/-- What the steps for the key `x` make of a blank entry. -/
def entryOf (blank : κ → α) (change : σ → α → α) (k : σ → κ) (steps : List σ) (x : κ) : α :=
  (steps.filter (k · = x)).foldl (fun a s => change s a) (blank x)

theorem key_entryOf (hblank : ∀ x, key (blank x) = x)
    (hchange : ∀ s a, key a = k s → key (change s a) = k s) (steps : List σ) (x : κ) :
    key (entryOf blank change k steps x) = x := by
  induction steps using List.reverseRecOn with
  | nil => exact hblank x
  | append_singleton steps s ih =>
    rw [entryOf, List.filter_append, List.foldl_append]
    by_cases h : k s = x
    · subst h
      simpa [entryOf] using hchange s _ ih
    · simpa [h, entryOf] using ih

theorem entryOf_eq_blank {steps : List σ} {x : κ} (h : x ∉ steps.map k) :
    entryOf blank change k steps x = blank x := by
  have hnone : steps.filter (k · = x) = [] :=
    List.filter_eq_nil_iff.2 fun s hs => by
      simpa using fun e : k s = x => h (e ▸ List.mem_map_of_mem hs)
  rw [entryOf, hnone, List.foldl_nil]

theorem entryOf_concat (steps : List σ) (s : σ) (x : κ) :
    entryOf blank change k (steps ++ [s]) x =
      if x = k s then change s (entryOf blank change k steps x)
      else entryOf blank change k steps x := by
  by_cases h : k s = x
  · simp [entryOf, h]
  · simp [entryOf, h, Ne.symm h]

/-- **Entries in insertion order.** -/
theorem foldl_upsert (hblank : ∀ x, key (blank x) = x)
    (hchange : ∀ s a, key a = k s → key (change s a) = k s) (steps : List σ) :
    steps.foldl (fun entries s => upsert key blank (change s) (k s) entries) [] =
      (steps.map k).eraseDups.map (entryOf blank change k steps) := by
  induction steps using List.reverseRecOn with
  | nil => rfl
  | append_singleton steps s ih =>
    rw [List.foldl_append, ih, List.foldl_cons, List.foldl_nil,
      upsert_map (key_entryOf hblank hchange steps) _ _ (nodup_eraseDups _), List.map_append,
      List.map_singleton, eraseDups_concat]
    by_cases h : k s ∈ steps.map k
    · rw [if_pos (List.mem_eraseDups.2 h), if_pos h]
      exact List.map_congr_left fun x _ => (entryOf_concat steps s x).symm
    · rw [if_neg (mt List.mem_eraseDups.1 h), if_neg h, List.map_append, List.map_singleton,
        entryOf_concat, if_pos rfl, entryOf_eq_blank h]
      congr 1
      refine List.map_congr_left fun x hx => ?_
      rw [entryOf_concat, if_neg fun e : x = k s => h (List.mem_eraseDups.1 (e ▸ hx))]

end Keyed

/-! ## Nodes -/

theorem TypeFields.typeName_add (node : TypeFields) (name : String) :
    (node.add name).typeName = node.typeName := by
  unfold add
  split_ifs <;> rfl

theorem TypeFields.add_add (node : TypeFields) (name : String) :
    (node.add name).add name = node.add name := by
  by_cases h : name ∈ node.fieldNames <;> simp [add, h]

theorem TypeFields.add_eraseDups (typeName : String) (names : List String) (name : String) :
    add ⟨typeName, names.eraseDups⟩ name = ⟨typeName, (names ++ [name]).eraseDups⟩ := by
  rw [eraseDups_concat]
  by_cases h : name ∈ names <;> simp [add, h, List.mem_eraseDups]

theorem TypeFields.foldl_add (typeName : String) (names more : List String) :
    more.foldl add ⟨typeName, names.eraseDups⟩ = ⟨typeName, (names ++ more).eraseDups⟩ := by
  induction more generalizing names with
  | nil => simp
  | cons name more ih => rw [List.foldl_cons, add_eraseDups, ih, ← List.append_cons]

namespace NodeList

theorem insert_eq_upsert (nodes : NodeList) (field : Coordinate) :
    nodes.insert field = upsert TypeFields.typeName (⟨·, []⟩)
      (fun node => node.add field.fieldName) field.typeName nodes := by
  induction nodes with
  | nil => rfl
  | cons node rest ih => rw [insert, upsert, ih]

theorem insert_insert (nodes : NodeList) (field : Coordinate) :
    (nodes.insert field).insert field = nodes.insert field := by
  induction nodes with
  | nil => simp [insert, TypeFields.ofFields, TypeFields.add]
  | cons node rest ih =>
    by_cases h : node.typeName = field.typeName
    · simp [insert, h, TypeFields.typeName_add, TypeFields.add_add]
    · simp [insert, h, ih]

/-- The node list with the given fields: one entry per type, with its fields, all in the order of
their first occurrence. -/
def group (fields : List Coordinate) : NodeList :=
  (fields.map (·.typeName)).eraseDups.map fun typeName =>
    ⟨typeName, ((fields.filter (·.typeName = typeName)).map (·.fieldName)).eraseDups⟩

theorem foldl_insert (fields : List Coordinate) : fields.foldl insert [] = group fields := by
  have hadd : ∀ (field : Coordinate) (node : TypeFields), node.typeName = field.typeName →
      (node.add field.fieldName).typeName = field.typeName := by
    intro field node h
    rw [TypeFields.typeName_add, h]
  rw [show insert = _ from funext₂ insert_eq_upsert, foldl_upsert (fun _ => rfl) hadd, group]
  refine List.map_congr_left fun typeName _ => ?_
  have hfields := TypeFields.foldl_add typeName []
    ((fields.filter (·.typeName = typeName)).map (·.fieldName))
  rwa [List.foldl_map, List.nil_append] at hfields

theorem mem_coordinates_group {fields : List Coordinate} {field : Coordinate} :
    field ∈ (group fields).coordinates ↔ field ∈ fields := by
  simp only [coordinates, group, TypeFields.coordinates, List.mem_flatMap, List.mem_map,
    List.mem_eraseDups]
  constructor
  · rintro ⟨_, ⟨_, _, rfl⟩, _, h, rfl⟩
    obtain ⟨other, ⟨hother, htype⟩, rfl⟩ := by simpa [List.mem_eraseDups] using h
    exact htype ▸ hother
  · intro h
    exact ⟨_, ⟨_, ⟨field, h, rfl⟩, rfl⟩, field.fieldName, by simpa [List.mem_eraseDups] using
      ⟨field, ⟨h, rfl⟩, rfl⟩, rfl⟩

end NodeList

/-! ## Field configurations -/

theorem ArgumentConfig.upsert_eq_upsert (blank : String → ArgumentConfig)
    (argument : ArgumentConfig) (arguments : List ArgumentConfig) :
    argument.upsert arguments =
      Supergraph.upsert ArgumentConfig.name blank (fun _ => argument) argument.name arguments := by
  induction arguments with
  | nil => rfl
  | cons other rest ih => rw [ArgumentConfig.upsert, Supergraph.upsert, ih]

/-- Arguments that are sent alike whenever they come up are kept once each. -/
theorem ArgumentConfig.upsert_eraseDups {sent : String → ArgumentConfig}
    (hsent : ∀ name, (sent name).name = name) (names : List String) (name : String) :
    (sent name).upsert (names.eraseDups.map sent) = (names ++ [name]).eraseDups.map sent := by
  rw [upsert_eq_upsert sent, hsent, upsert_map hsent _ _ (nodup_eraseDups names), eraseDups_concat]
  by_cases h : name ∈ names
  · rw [if_pos (List.mem_eraseDups.2 h), if_pos h]
    refine List.map_congr_left fun other _ => ?_
    split_ifs with e
    · rw [e]
    · rfl
  · rw [if_neg (mt List.mem_eraseDups.1 h), if_neg h, List.map_append, List.map_singleton]

namespace FieldConfig

theorem update_eq_upsert (field : Coordinate) (change : FieldConfig → FieldConfig)
    (configs : List FieldConfig) :
    update field change configs = upsert coordinate blank change field configs := by
  induction configs with
  | nil => rfl
  | cons config rest ih => rw [update, upsert, ih]

theorem update_update {first second : FieldConfig → FieldConfig} {field : Coordinate}
    (hfirst : ∀ config, (first config).coordinate = config.coordinate)
    (configs : List FieldConfig) :
    update field second (update field first configs) =
      update field (fun config => second (first config)) configs := by
  induction configs with
  | nil => simp [update, hfirst, show (blank field).coordinate = field from rfl]
  | cons config rest ih =>
    by_cases h : config.coordinate = field
    · simp [update, h, hfirst]
    · simp [update, h, ih]

theorem foldl_upsertArgument {sent : String → ArgumentConfig}
    (hsent : ∀ name, (sent name).name = name) (config : FieldConfig) (names more : List String) :
    more.foldl (fun config name => config.upsertArgument (sent name))
        { config with arguments := names.eraseDups.map sent } =
      { config with arguments := (names ++ more).eraseDups.map sent } := by
  induction more generalizing names with
  | nil => simp
  | cons name more ih =>
    rw [List.foldl_cons, upsertArgument, ArgumentConfig.upsert_eraseDups hsent, ih,
      ← List.append_cons]

theorem requireAll_eraseDups (config : FieldConfig) (names more : List String) :
    requireAll more { config with requires := names.eraseDups } =
      { config with requires := (names ++ more).eraseDups } := by
  induction more generalizing names with
  | nil => simp [requireAll]
  | cons name more ih =>
    have hrequire : require name { config with requires := names.eraseDups } =
        { config with requires := (names ++ [name]).eraseDups } := by
      rw [eraseDups_concat]
      by_cases h : name ∈ names <;> simp [require, h, List.mem_eraseDups]
    rw [requireAll, List.foldl_cons, hrequire, ← requireAll, ih, ← List.append_cons]

@[simp] theorem coordinate_upsertArgument (argument : ArgumentConfig) (config : FieldConfig) :
    (config.upsertArgument argument).coordinate = config.coordinate := rfl

theorem coordinate_foldl_upsertArgument {α : Type} (sent : α → ArgumentConfig) (as : List α)
    (config : FieldConfig) :
    (as.foldl (fun config a => config.upsertArgument (sent a)) config).coordinate =
      config.coordinate := by
  induction as generalizing config with
  | nil => rfl
  | cons a rest ih => rw [List.foldl_cons, ih, coordinate_upsertArgument]

@[simp] theorem coordinate_require (name : String) (config : FieldConfig) :
    (config.require name).coordinate = config.coordinate := by
  unfold require
  split_ifs <;> rfl

@[simp] theorem coordinate_requireAll (names : List String) (config : FieldConfig) :
    (config.requireAll names).coordinate = config.coordinate := by
  induction names generalizing config with
  | nil => rfl
  | cons name names ih => rw [requireAll, List.foldl_cons, ← requireAll, ih, coordinate_require]

theorem coordinate_absorb (other config : FieldConfig) :
    (other.absorb config).coordinate = config.coordinate := by
  rw [absorb, coordinate_requireAll, coordinate_foldl_upsertArgument (fun argument => argument)]
  rfl

end FieldConfig

end Supergraph
