import Supergraph.Proofs.Merging

/-!
# Merging as an operation

What several configurations of one field say together can be read off without merging them
(`FieldConfig.joined`): a flag is set if one of them sets it, the first path that is not empty
counts, every argument is sent as the last one says that names it, and the required fields are all
of theirs, each once. Arguments and required fields stand where they come up first.

**Theorem (`merge_laws`).** A list merged into a well-formed one leaves a well-formed list: the
fields of the first list, then the new ones of the second, and for each of them what both lists say
together. On well-formed lists merging is associative and idempotent, and the empty list is neutral.

**Proof.** A well-formed list is what merging it into nothing leaves, so every merge is one from
nothing, of both lists put together (`merge_eq_merge_nil`), and that has a closed form
(`merge_nil_eq_joined`). The laws then are laws of `joined`: what a part says may be joined before
(`joined_append_joined`), and may be said twice (`joined_append_self`).
-/

namespace Supergraph

/-! ## First occurrences -/

section FirstOccurrences

variable {α : Type} [DecidableEq α]

theorem eraseDups_append_eraseDups (as bs : List α) :
    (as ++ bs.eraseDups).eraseDups = (as ++ bs).eraseDups := by
  induction bs using List.reverseRecOn with
  | nil => rfl
  | append_singleton bs b ih =>
    rw [eraseDups_concat, ← List.append_assoc, eraseDups_concat]
    by_cases hb : b ∈ bs
    · rw [if_pos hb, if_pos (List.mem_append_right _ hb), ih]
    · have hmem : b ∈ as ++ bs.eraseDups ↔ b ∈ as ++ bs := by
        simp only [List.mem_append, List.mem_eraseDups]
      rw [if_neg hb, ← List.append_assoc, eraseDups_concat, ih]
      simp only [hmem]

theorem eraseDups_append_self (as : List α) : (as ++ as).eraseDups = as.eraseDups := by
  have hnew : as.removeAll as = [] := by simp [List.removeAll]
  rw [List.eraseDups_append, hnew, List.eraseDups_nil, List.append_nil]

end FirstOccurrences

/-! ## The last argument of each name -/

namespace ArgumentConfig

/-- The last argument called `name`. -/
def lastNamed? (arguments : List ArgumentConfig) (name : String) : Option ArgumentConfig :=
  (arguments.filter (·.name = name)).getLast?

/-- The last argument of each name, in the order in which the names come up first. -/
def lastOfEach (arguments : List ArgumentConfig) : List ArgumentConfig :=
  (arguments.map (·.name)).eraseDups.filterMap (lastNamed? arguments)

variable {arguments others : List ArgumentConfig} {name : String}

theorem lastNamed?_append :
    lastNamed? (arguments ++ others) name =
      (lastNamed? others name).or (lastNamed? arguments name) := by
  rw [lastNamed?, List.filter_append, List.getLast?_append, lastNamed?, lastNamed?]

theorem name_of_lastNamed? {argument : ArgumentConfig}
    (h : lastNamed? arguments name = some argument) : argument.name = name :=
  of_decide_eq_true (List.mem_filter.1 (List.mem_of_getLast? h)).2

theorem exists_lastNamed? (h : name ∈ arguments.map (·.name)) :
    ∃ argument, lastNamed? arguments name = some argument := by
  obtain ⟨argument, hmem, hname⟩ := List.mem_map.1 h
  have hne : arguments.filter (·.name = name) ≠ [] :=
    List.ne_nil_of_mem (List.mem_filter.2 ⟨hmem, decide_eq_true hname⟩)
  exact ⟨_, List.getLast?_eq_some_getLast hne⟩

theorem lastNamed?_eq_none (h : name ∉ arguments.map (·.name)) :
    lastNamed? arguments name = none := by
  have hnone : arguments.filter (·.name = name) = [] :=
    List.filter_eq_nil_iff.2 fun argument hmem hname =>
      h (of_decide_eq_true hname ▸ List.mem_map_of_mem hmem)
  rw [lastNamed?, hnone, List.getLast?_nil]

/-- There is one argument per name. -/
theorem names_lastOfEach (arguments : List ArgumentConfig) :
    (lastOfEach arguments).map (·.name) = (arguments.map (·.name)).eraseDups := by
  have hnames : ∀ name ∈ (arguments.map (·.name)).eraseDups,
      (lastNamed? arguments name).map (·.name) = some name := by
    intro name hname
    obtain ⟨argument, h⟩ := exists_lastNamed? (List.mem_eraseDups.1 hname)
    rw [h, Option.map_some, name_of_lastNamed? h]
  rw [lastOfEach, List.map_filterMap, List.filterMap_congr hnames, List.filterMap_some]

theorem filter_filterMap_lastNamed? {names : List String} (hnames : names.Nodup) :
    (names.filterMap (lastNamed? arguments)).filter (·.name = name) =
      if name ∈ names then (lastNamed? arguments name).toList else [] := by
  induction names with
  | nil => rfl
  | cons other names ih =>
    obtain ⟨hother, hnames⟩ := List.nodup_cons.1 hnames
    have hhead : (lastNamed? arguments other).toList.filter (·.name = name) =
        if other = name then (lastNamed? arguments other).toList else [] := by
      cases h : lastNamed? arguments other with
      | none => simp
      | some argument => by_cases e : other = name <;> simp [name_of_lastNamed? h, e]
    have hcons : (other :: names).filterMap (lastNamed? arguments) =
        (lastNamed? arguments other).toList ++ names.filterMap (lastNamed? arguments) := by
      rw [List.filterMap_cons]
      cases lastNamed? arguments other <;> rfl
    rw [hcons, List.filter_append, ih hnames, hhead]
    by_cases e : other = name
    · subst e
      simp [hother]
    · simp [e, Ne.symm e]

theorem lastNamed?_lastOfEach (arguments : List ArgumentConfig) (name : String) :
    lastNamed? (lastOfEach arguments) name = lastNamed? arguments name := by
  rw [lastNamed?, lastOfEach, filter_filterMap_lastNamed? (nodup_eraseDups _)]
  by_cases h : name ∈ arguments.map (·.name)
  · rw [if_pos (List.mem_eraseDups.2 h)]
    cases lastNamed? arguments name <;> rfl
  · rw [if_neg (mt List.mem_eraseDups.1 h), lastNamed?_eq_none h, List.getLast?_nil]

theorem lastOfEach_congr
    (hnames : (arguments.map (·.name)).eraseDups = (others.map (·.name)).eraseDups)
    (hlast : ∀ name, lastNamed? arguments name = lastNamed? others name) :
    lastOfEach arguments = lastOfEach others := by
  rw [lastOfEach, hnames, funext hlast, lastOfEach]

theorem lastOfEach_append_lastOfEach (arguments others : List ArgumentConfig) :
    lastOfEach (arguments ++ lastOfEach others) = lastOfEach (arguments ++ others) := by
  refine lastOfEach_congr ?_ fun name => ?_
  · rw [List.map_append, names_lastOfEach, eraseDups_append_eraseDups, List.map_append]
  · rw [lastNamed?_append, lastNamed?_lastOfEach, lastNamed?_append]

theorem lastOfEach_append_self (arguments : List ArgumentConfig) :
    lastOfEach (arguments ++ arguments) = lastOfEach arguments := by
  refine lastOfEach_congr ?_ fun name => ?_
  · rw [List.map_append, eraseDups_append_self]
  · rw [lastNamed?_append, Option.or_self]

/-- Arguments that are put in place one after the other leave the last one of each name. -/
theorem foldl_upsert_nil (arguments : List ArgumentConfig) :
    arguments.foldl (fun arguments argument => argument.upsert arguments) [] =
      lastOfEach arguments := by
  let blank : String → ArgumentConfig := fieldArgument
  have hlast (rest : List ArgumentConfig) (first : ArgumentConfig) :
      rest.foldl (fun _ argument => argument) first = rest.getLast?.getD first := by
    induction rest using List.reverseRecOn with
    | nil => rfl
    | append_singleton rest argument ih => simp
  -- Putting in place is changing an entry to a constant, whatever it was.
  let change : ArgumentConfig → ArgumentConfig → ArgumentConfig := fun argument _ => argument
  have hblank : ∀ name, (blank name).name = name := fun _ => rfl
  have hchange : ∀ argument other : ArgumentConfig, other.name = argument.name →
      (change argument other).name = argument.name := fun _ _ _ => rfl
  have hsteps := foldl_upsert hblank hchange arguments
  rw [funext₂ fun arguments argument => upsert_eq_upsert blank argument arguments, lastOfEach]
  refine hsteps.trans (List.filterMap_eq_map_iff_forall_eq_some.2 fun name hname => ?_).symm
  obtain ⟨argument, h⟩ := exists_lastNamed? (List.mem_eraseDups.1 hname)
  rw [h, entryOf, hlast]
  exact congrArg some (congrArg (Option.getD · (blank name)) h).symm

theorem foldl_upsert_lastOfEach (arguments more : List ArgumentConfig) :
    more.foldl (fun arguments argument => argument.upsert arguments) (lastOfEach arguments) =
      lastOfEach (arguments ++ more) := by
  rw [← foldl_upsert_nil, ← foldl_upsert_nil, List.foldl_append]

end ArgumentConfig

namespace FieldConfig

variable {config : FieldConfig} {configs others : List FieldConfig} {field : Coordinate}

/-! ## What configurations say together -/

/-- The first path that is not empty. -/
def firstPath (configs : List FieldConfig) : List String :=
  ((configs.map (·.path)).find? (! ·.isEmpty)).getD []

/-- What the configurations of one field say together. -/
def joined (field : Coordinate) (configs : List FieldConfig) : FieldConfig where
  typeName := field.typeName
  fieldName := field.fieldName
  disableDefaultMapping := configs.any (·.disableDefaultMapping)
  path := firstPath configs
  arguments := ArgumentConfig.lastOfEach (configs.flatMap (·.arguments))
  requires := (configs.flatMap (·.requires)).eraseDups
  unescapeJson := configs.any (·.unescapeJson)

theorem firstPath_cons (config : FieldConfig) (configs : List FieldConfig) :
    firstPath (config :: configs) =
      if config.path.isEmpty then firstPath configs else config.path := by
  rw [firstPath, List.map_cons, List.find?_cons]
  cases config.path.isEmpty <;> rfl

theorem firstPath_append (configs others : List FieldConfig) :
    firstPath (configs ++ others) =
      if (firstPath configs).isEmpty then firstPath others else firstPath configs := by
  induction configs with
  | nil => rfl
  | cons config configs ih =>
    rw [List.cons_append, firstPath_cons, firstPath_cons, ih]
    cases h : config.path.isEmpty <;> simp [h]

theorem firstPath_singleton (config : FieldConfig) : firstPath [config] = config.path := by
  rw [firstPath_cons]
  cases h : config.path <;> rfl

theorem foldl_upsertArgument_eq (arguments : List ArgumentConfig) (config : FieldConfig) :
    arguments.foldl (fun config argument => config.upsertArgument argument) config =
      { config with arguments := arguments.foldl (fun as a => a.upsert as) config.arguments } := by
  induction arguments generalizing config with
  | nil => rfl
  | cons argument rest ih => rw [List.foldl_cons, ih, List.foldl_cons, upsertArgument]

theorem requireAll_of_requires (names : List String) (h : config.requires = names.eraseDups)
    (more : List String) :
    config.requireAll more = { config with requires := (names ++ more).eraseDups } := by
  have hconfig : config = { config with requires := names.eraseDups } := by rw [← h]
  rw [hconfig, requireAll_eraseDups]

/-- What was joined, joined with one more. -/
theorem absorb_joined (field : Coordinate) (configs : List FieldConfig) (other : FieldConfig) :
    other.absorb (joined field configs) = joined field (configs ++ [other]) := by
  have harguments := ArgumentConfig.foldl_upsert_lastOfEach (configs.flatMap (·.arguments))
    other.arguments
  rw [absorb, foldl_upsertArgument_eq,
    requireAll_of_requires (configs.flatMap (·.requires)) rfl]
  simp only [joined, harguments, firstPath_append, firstPath_singleton, List.any_append,
    List.any_cons, List.any_nil, Bool.or_false, List.flatMap_append, List.flatMap_cons,
    List.flatMap_nil, List.append_nil]
  rfl

theorem foldl_absorb (field : Coordinate) (configs : List FieldConfig) :
    configs.foldl (fun config other => other.absorb config) (blank field) =
      joined field configs := by
  induction configs using List.reverseRecOn with
  | nil => rfl
  | append_singleton configs config ih =>
    rw [List.foldl_append, ih, List.foldl_cons, List.foldl_nil, absorb_joined]

/-- What a part says may be joined before. -/
theorem joined_append_joined (field : Coordinate) (configs others : List FieldConfig) :
    joined field (configs ++ [joined field others]) = joined field (configs ++ others) := by
  have hpath : firstPath (configs ++ [joined field others]) = firstPath (configs ++ others) := by
    rw [firstPath_append, firstPath_singleton, firstPath_append]
    rfl
  have harguments : ArgumentConfig.lastOfEach
      ((configs ++ [joined field others]).flatMap (·.arguments)) =
        ArgumentConfig.lastOfEach ((configs ++ others).flatMap (·.arguments)) := by
    rw [List.flatMap_append, List.flatMap_singleton, List.flatMap_append]
    exact ArgumentConfig.lastOfEach_append_lastOfEach _ _
  have hrequires : ((configs ++ [joined field others]).flatMap (·.requires)).eraseDups =
      ((configs ++ others).flatMap (·.requires)).eraseDups := by
    rw [List.flatMap_append, List.flatMap_singleton, List.flatMap_append]
    exact eraseDups_append_eraseDups _ _
  rw [joined, hpath, harguments, hrequires]
  simp only [joined, List.any_append, List.any_cons, List.any_nil, Bool.or_false]

/-- What is said twice is said. -/
theorem joined_append_self (field : Coordinate) (configs : List FieldConfig) :
    joined field (configs ++ configs) = joined field configs := by
  simp only [joined, firstPath_append, ite_self, List.any_append, Bool.or_self,
    List.flatMap_append, ArgumentConfig.lastOfEach_append_self, eraseDups_append_self]

/-! ## Well-formed lists -/

/-- The configurations of one field. -/
def about (configs : List FieldConfig) (field : Coordinate) : List FieldConfig :=
  configs.filter (·.coordinate = field)

theorem about_append (configs others : List FieldConfig) (field : Coordinate) :
    about (configs ++ others) field = about configs field ++ about others field :=
  List.filter_append ..

theorem about_eq_nil (h : field ∉ configs.map (·.coordinate)) : about configs field = [] :=
  List.filter_eq_nil_iff.2 fun _ hmem hfield =>
    h (of_decide_eq_true hfield ▸ List.mem_map_of_mem hmem)

/-- Whether there is one configuration per field, and each of them is well-formed. -/
structure AreWellFormed (configs : List FieldConfig) : Prop where
  nodup : (configs.map (·.coordinate)).Nodup
  each : ∀ config ∈ configs, config.IsWellFormed

instance : DecidablePred IsWellFormed := fun config =>
  decidable_of_iff ((config.arguments.map (·.name)).Nodup ∧ config.requires.Nodup)
    ⟨fun ⟨harguments, hrequires⟩ => ⟨harguments, hrequires⟩, fun h => ⟨h.arguments, h.requires⟩⟩

instance : DecidablePred AreWellFormed := fun configs =>
  decidable_of_iff ((configs.map (·.coordinate)).Nodup ∧ ∀ config ∈ configs, config.IsWellFormed)
    ⟨fun ⟨hnodup, heach⟩ => ⟨hnodup, heach⟩, fun h => ⟨h.nodup, h.each⟩⟩

theorem isWellFormed_joined (field : Coordinate) (configs : List FieldConfig) :
    (joined field configs).IsWellFormed where
  arguments := by
    show ((ArgumentConfig.lastOfEach _).map (·.name)).Nodup
    rw [ArgumentConfig.names_lastOfEach]
    exact nodup_eraseDups _
  requires := nodup_eraseDups _

/-! ## Merges in closed form -/

/-- **What merging leaves**: for every field what its configurations say together. -/
theorem merge_nil_eq_joined (configs : List FieldConfig) :
    merge [] configs = (configs.map (·.coordinate)).eraseDups.map fun field =>
      joined field (about configs field) := by
  rw [merge_nil_eq]
  exact List.map_congr_left fun field _ => foldl_absorb field _

theorem areWellFormed_merge_nil (configs : List FieldConfig) :
    AreWellFormed (merge [] configs) where
  nodup := by
    rw [coordinates_merge_nil]
    exact nodup_eraseDups _
  each := by
    rw [merge_nil_eq_joined]
    exact List.forall_mem_map.2 fun field _ => isWellFormed_joined field _

/-- Merging into a well-formed list is merging both lists from nothing. -/
theorem merge_eq_merge_nil (h : AreWellFormed configs) (others : List FieldConfig) :
    merge configs others = merge [] (configs ++ others) := by
  rw [merge_append, merge_nil_of_isWellFormed h.nodup h.each]

/-- The configurations of one field, once a list is merged. -/
theorem about_merge_nil (configs : List FieldConfig) (field : Coordinate) :
    about (merge [] configs) field =
      if field ∈ configs.map (·.coordinate) then [joined field (about configs field)] else [] := by
  rw [merge_nil_eq_joined]
  refine (filter_key_map (fun _ => rfl) (nodup_eraseDups _)).trans ?_
  simp only [List.mem_eraseDups]

theorem joined_about_append_merge_nil (configs others : List FieldConfig) (field : Coordinate) :
    joined field (about (configs ++ merge [] others) field) =
      joined field (about (configs ++ others) field) := by
  rw [about_append, about_append, about_merge_nil]
  by_cases h : field ∈ others.map (·.coordinate)
  · rw [if_pos h, joined_append_joined]
  · rw [if_neg h, about_eq_nil h]

/-- A list may be merged by itself before it is merged into another one. -/
theorem merge_nil_append_merge_nil (configs others : List FieldConfig) :
    merge [] (configs ++ merge [] others) = merge [] (configs ++ others) := by
  have hkeys : ((configs ++ merge [] others).map (·.coordinate)).eraseDups =
      ((configs ++ others).map (·.coordinate)).eraseDups := by
    rw [List.map_append, coordinates_merge_nil, eraseDups_append_eraseDups, List.map_append]
  rw [merge_nil_eq_joined (configs ++ merge [] others), merge_nil_eq_joined (configs ++ others),
    hkeys]
  exact List.map_congr_left fun field _ => joined_about_append_merge_nil configs others field

theorem merge_nil_append_self (configs : List FieldConfig) :
    merge [] (configs ++ configs) = merge [] configs := by
  rw [merge_nil_eq_joined, merge_nil_eq_joined, List.map_append, eraseDups_append_self]
  refine List.map_congr_left fun field _ => ?_
  rw [about_append, joined_append_self]

/-! ## The laws -/

theorem merge_assoc {first second third : List FieldConfig} (hfirst : AreWellFormed first)
    (hsecond : AreWellFormed second) :
    merge (merge first second) third = merge first (merge second third) := by
  calc merge (merge first second) third
      = merge (merge [] (first ++ second)) third := by rw [merge_eq_merge_nil hfirst]
    _ = merge [] (first ++ (second ++ third)) := by rw [← merge_append, List.append_assoc]
    _ = merge [] (first ++ merge [] (second ++ third)) := (merge_nil_append_merge_nil ..).symm
    _ = merge first (merge second third) := by
      rw [← merge_eq_merge_nil hfirst, merge_eq_merge_nil hsecond]

theorem merge_self (h : AreWellFormed configs) : merge configs configs = configs := by
  rw [merge_eq_merge_nil h, merge_nil_append_self, merge_nil_of_isWellFormed h.nodup h.each]

/-- What merging a list into another one leaves: the fields of the first, then the new ones of the
second, and what both lists say of each. -/
structure IsMerged (configs others merged : List FieldConfig) : Prop where
  wellFormed : AreWellFormed merged
  fields : merged.map (·.coordinate) = configs.map (·.coordinate) ++
    ((others.map (·.coordinate)).removeAll (configs.map (·.coordinate))).eraseDups
  entries : ∀ config ∈ merged,
    config = joined config.coordinate (about (configs ++ others) config.coordinate)

theorem isMerged_merge (h : AreWellFormed configs) (others : List FieldConfig) :
    IsMerged configs others (merge configs others) where
  wellFormed := by
    rw [merge_eq_merge_nil h]
    exact areWellFormed_merge_nil _
  fields := by
    rw [merge_eq_merge_nil h, coordinates_merge_nil, List.map_append, List.eraseDups_append,
      eraseDups_of_nodup h.nodup]
  entries := by
    rw [merge_eq_merge_nil h, merge_nil_eq_joined]
    exact List.forall_mem_map.2 fun _ _ => rfl

/-- **Merging is a monoid.** Merged into a well-formed list, any list adds its new fields behind and
what it says of the others to theirs. On well-formed lists merging is associative and idempotent,
and the empty list is neutral. -/
theorem merge_laws :
    (∀ configs others, AreWellFormed configs →
      IsMerged configs others (merge configs others)) ∧
    (∀ first second third, AreWellFormed first → AreWellFormed second → AreWellFormed third →
      merge (merge first second) third = merge first (merge second third)) ∧
    ∀ configs, AreWellFormed configs →
      merge configs configs = configs ∧ merge configs [] = configs ∧ merge [] configs = configs :=
  ⟨fun _ others h => isMerged_merge h others,
    fun _ _ _ hfirst hsecond _ => merge_assoc hfirst hsecond,
    fun _ h => ⟨merge_self h, rfl, merge_nil_of_isWellFormed h.nodup h.each⟩⟩

/-- What one backend says about its fields. -/
def orders : List FieldConfig :=
  [⟨"Query", "orders", false, [], [.fieldArgument "since", .fieldArgument "first"], [], false⟩]

/-- What another one says, about one of these fields and a new one. -/
def invoices : List FieldConfig :=
  [⟨"Order", "total", false, [], [], ["id", "currency"], true⟩,
    ⟨"Query", "orders", true, ["allOrders"],
      [⟨"since", .fieldArgument, [], .default, "Date"⟩, .fieldArgument "after"], ["id"], false⟩]

/-- The argument `since` is sent as said last, at its old place. -/
theorem merge_laws_orders :
    let both : List FieldConfig :=
      [⟨"Query", "orders", true, ["allOrders"],
        [⟨"since", .fieldArgument, [], .default, "Date"⟩, .fieldArgument "first",
          .fieldArgument "after"], ["id"], false⟩,
        ⟨"Order", "total", false, [], [], ["id", "currency"], true⟩]
    AreWellFormed orders ∧ AreWellFormed invoices ∧ AreWellFormed both ∧
      merge orders invoices = both ∧ IsMerged orders invoices both ∧
      merge both orders = merge orders (merge invoices orders) ∧
      merge both both = both ∧ merge both [] = both ∧ merge [] both = both := by
  intro both
  obtain ⟨hmerged, hassoc, hself⟩ := merge_laws
  have horders : AreWellFormed orders := by decide
  have hinvoices : AreWellFormed invoices := by decide
  have hboth : AreWellFormed both := by decide
  have heq : merge orders invoices = both := by decide
  have hassoc := hassoc orders invoices orders horders hinvoices horders
  have hmerged := hmerged orders invoices horders
  rw [heq] at hassoc hmerged
  exact ⟨horders, hinvoices, hboth, heq, hmerged, hassoc, hself both hboth⟩

/-- With two configurations of one field the order of merging matters. -/
example :
    let twice : List FieldConfig :=
      [⟨"Query", "orders", false, ["orders"], [.fieldArgument "first"], [], false⟩,
        ⟨"Query", "orders", false, [], [⟨"first", .fieldArgument, [], .default, "Int"⟩], [], false⟩]
    merge (merge [] twice) orders ≠ merge [] (merge twice orders) := by
  decide

end FieldConfig

end Supergraph
