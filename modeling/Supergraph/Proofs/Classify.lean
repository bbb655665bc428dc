import Supergraph.Proofs.ClassifyingVisitor
import Supergraph.Proofs.InsertionOrder
import Supergraph.Proofs.Occurrence

/-!
# The exact result of a classification

**Theorem (`classification_exact`).** A classification fails with the error of the first key in
document order that cannot be read. Otherwise its root and child nodes are the fields with an
occurrence of that kind, inserted in document order, and it configures the fields with an occurrence
that has arguments or requires the key: one configuration per field, which joins what all its
occurrences say. A walk with the visitor that notes directives as it meets them ends with the same.

The classification goes through the document with a result that grows. One occurrence changes that
result in a way that depends on the occurrence alone (`addOccurrence`), so each of its lists is a
fold over the occurrences that count for it, and a fold over insertions has a closed form.
-/

namespace Supergraph

/-! ## Keys -/

/-- The value, unless there is an error. -/
def okUnless {α : Type} (error? : Option Error) (a : α) : Except Error α :=
  match error? with
  | some error => .error error
  | none => .ok a

theorem okUnless_bind {α β : Type} (first second : Option Error) (a : α) (f : α → β) :
    (okUnless first a >>= fun a => okUnless second (f a)) = okUnless (first.or second) (f a) := by
  cases first <;> rfl

namespace Container

theorem keyOf_eq (directive : Directive) :
    keyOf directive = okUnless (directive.keyText?.bind FieldSet.errorIn?)
      (directive.keyText?.elim [] FieldSet.namesIn) := by
  unfold keyOf Directive.keyText?
  split_ifs
  · cases directive.stringArgument? "fields" with
    | none => rfl
    | some text =>
      show (FieldSet.parse text).map FieldSet.names =
        okUnless (FieldSet.errorIn? text) (FieldSet.namesIn text)
      unfold FieldSet.errorIn? FieldSet.namesIn
      cases FieldSet.parse text <;> rfl
  · rfl

theorem keysOf_eq (directives : List Directive) :
    keysOf directives =
      okUnless ((directives.filterMap Directive.keyText?).findSome? FieldSet.errorIn?)
        ((directives.filterMap Directive.keyText?).flatMap FieldSet.namesIn) := by
  induction directives with
  | nil => rfl
  | cons directive rest ih =>
    have hmap : ∀ first error? (others : List String),
        (okUnless error? others >>= fun others => .ok (first ++ others)) =
          okUnless error? (first ++ others) := by
      intro first error? others
      cases error? <;> rfl
    have hstep : keysOf (directive :: rest) =
        keyOf directive >>= fun first => keysOf rest >>= fun others => .ok (first ++ others) := rfl
    rw [hstep, keyOf_eq, ih]
    simp only [hmap, okUnless_bind]
    cases h : directive.keyText? with
    | none => simp [h]
    | some text => cases he : FieldSet.errorIn? text <;> simp [h, he]

theorem keys_eq (container : Container) :
    container.keys = okUnless (container.keyTexts.findSome? FieldSet.errorIn?) container.keyNames :=
  keysOf_eq container.directives

end Container

/-! ## One occurrence -/

namespace Classification

variable (roots : RootTypes) (retypings : List ArgumentRetyping)

/-- Classifies one occurrence. -/
def addOccurrence (c : Classification) (o : Occurrence) : Classification :=
  addField retypings ⟨o.container.name, roots.isRoot o.container.name, o.container.extendsType,
    o.container.isEntity, o.container.keyNames⟩ c o.field

theorem addContainer_eq (c : Classification) (container : Container) :
    addContainer roots retypings c container =
      okUnless (container.keyTexts.findSome? FieldSet.errorIn?)
        ((container.fields.map (⟨container, ·⟩)).foldl (addOccurrence roots retypings) c) := by
  rw [List.foldl_map]
  unfold addContainer
  rw [Container.keys_eq]
  cases container.keyTexts.findSome? FieldSet.errorIn? <;> rfl

theorem foldlM_addContainer (containers : List Container) (c : Classification) :
    containers.foldlM (addContainer roots retypings) c =
      okUnless ((containers.flatMap (·.keyTexts)).findSome? FieldSet.errorIn?)
        ((containers.flatMap fun container => container.fields.map (⟨container, ·⟩)).foldl
          (addOccurrence roots retypings) c) := by
  induction containers generalizing c with
  | nil => rfl
  | cons container rest ih =>
    rw [List.foldlM_cons, addContainer_eq, funext ih, okUnless_bind, List.flatMap_cons,
      List.flatMap_cons, List.findSome?_append, List.foldl_append]

theorem addRoot_eq (condition : Bool) (field : Coordinate) (c : Classification) :
    addRoot condition field c =
      { c with rootNodes := if condition then c.rootNodes.insert field else c.rootNodes } := by
  unfold addRoot
  split_ifs <;> rfl

theorem addChild_eq (condition : Bool) (field : Coordinate) (c : Classification) :
    addChild condition field c =
      { c with childNodes := if condition then c.childNodes.insert field else c.childNodes } := by
  unfold addChild
  split_ifs <;> rfl

theorem isRoot_or_eq (o : Occurrence) :
    (roots.isRoot o.container.name || (o.container.isEntity && ! o.field.isExternal)) =
      decide (o.IsRootNode roots) := by
  simp [Occurrence.IsRootNode, RootTypes.isRoot_eq_contains]

theorem own_or_eq (o : Occurrence) :
    ((! o.field.isExternal && ! roots.isRoot o.container.name &&
        ! (o.container.extendsType && o.container.isEntity && ! o.field.isExternal)) ||
      (! ! o.field.isExternal && o.container.keyNames.contains o.field.name)) =
      decide (o.IsChildNode roots) := by
  rw [Bool.eq_iff_iff, decide_eq_true_iff, Occurrence.IsChildNode, Occurrence.IsKey,
    RootTypes.isRoot_eq_contains]
  simp only [Bool.or_eq_true, Bool.and_eq_true, Bool.not_eq_true', List.contains_eq_mem]
  grind

theorem extended_or_eq (o : Occurrence) :
    ((o.container.extendsType && o.container.isEntity && ! o.field.isExternal) ||
      (o.container.isEntity && ! o.field.isExternal &&
        ! o.container.keyNames.contains o.field.name)) = decide o.RequiresKey := by
  rw [Bool.eq_iff_iff, decide_eq_true_iff, Occurrence.RequiresKey, Occurrence.IsKey]
  simp only [Bool.or_eq_true, Bool.and_eq_true, Bool.not_eq_true', List.contains_eq_mem]
  grind

/-- What the arguments of an occurrence change in the configuration of its field. -/
def configureArguments (o : Occurrence) (config : FieldConfig) : FieldConfig :=
  o.field.arguments.foldl (fun config argument =>
    config.upsertArgument (argumentConfig retypings o.coordinate argument.name)) config

/-- What an occurrence changes in the configuration of its field. -/
def configure (o : Occurrence) (config : FieldConfig) : FieldConfig :=
  (configureArguments retypings o config).requireAll o.required

theorem coordinate_configureArguments (o : Occurrence) (config : FieldConfig) :
    (configureArguments retypings o config).coordinate = config.coordinate :=
  FieldConfig.coordinate_foldl_upsertArgument _ o.field.arguments config

theorem configureArguments_of_nil {o : Occurrence} (h : o.argumentNames = []) :
    configureArguments retypings o = id := by
  funext config
  rw [configureArguments, List.map_eq_nil_iff.1 h, List.foldl_nil, id]

theorem foldl_update {α : Type} (change : α → FieldConfig → FieldConfig) (field : Coordinate)
    (hchange : ∀ a config, (change a config).coordinate = config.coordinate) (as : List α)
    (configs : List FieldConfig) :
    as.foldl (fun configs a => FieldConfig.update field (change a) configs) configs =
      if as = [] then configs
      else FieldConfig.update field
        (fun config => as.foldl (fun config a => change a config) config) configs := by
  induction as generalizing configs with
  | nil => rfl
  | cons a rest ih =>
    rw [List.foldl_cons, ih, if_neg (List.cons_ne_nil a rest)]
    split_ifs with h
    · subst h; rfl
    · rw [FieldConfig.update_update (hchange a)]; rfl

theorem addRequired_eq (o : Occurrence) (c : Classification) :
    addRequired (decide o.RequiresKey) o.coordinate o.container.keyNames c =
      { c with fields := if o.required = [] then c.fields
          else FieldConfig.update o.coordinate (FieldConfig.requireAll o.required) c.fields } := by
  unfold addRequired Occurrence.required
  by_cases h : o.RequiresKey
  · by_cases hkeys : o.container.keyNames = [] <;> simp [h, hkeys]
  · simp [h]

theorem addArguments_eq (o : Occurrence) (c : Classification) :
    addArguments retypings o.coordinate o.field.arguments c =
      { c with fields := if o.argumentNames = [] then c.fields
          else FieldConfig.update o.coordinate (configureArguments retypings o) c.fields } := by
  have hfold := foldl_update (fun argument : InputField =>
    FieldConfig.upsertArgument (argumentConfig retypings o.coordinate argument.name)) o.coordinate
    (fun _ _ => rfl) o.field.arguments c.fields
  simp only [addArguments, Occurrence.argumentNames, List.map_eq_nil_iff, hfold]
  rfl

/-- **One occurrence.** It is inserted into the nodes of its kinds and into the configuration of its
field, whatever came before. -/
theorem addOccurrence_eq (c : Classification) (o : Occurrence) :
    addOccurrence roots retypings c o = {
      rootNodes := if o.IsRootNode roots then c.rootNodes.insert o.coordinate else c.rootNodes
      childNodes := if o.IsChildNode roots then c.childNodes.insert o.coordinate else c.childNodes
      fields := if o.IsConfigured then
        FieldConfig.update o.coordinate (configure retypings o) c.fields else c.fields
      types := c.types } := by
  have hsteps : addOccurrence roots retypings c o =
      (c |> addArguments retypings o.coordinate o.field.arguments
        |> addRoot (decide (o.IsRootNode roots)) o.coordinate
        |> addRequired (decide o.RequiresKey) o.coordinate o.container.keyNames
        |> addChild (decide (o.IsChildNode roots)) o.coordinate) := by
    rw [← isRoot_or_eq, ← own_or_eq, ← extended_or_eq]
    rfl
  -- Arguments and required fields go into one configuration, in one update or in two.
  have hfields : (if o.required = [] then
        if o.argumentNames = [] then c.fields
        else FieldConfig.update o.coordinate (configureArguments retypings o) c.fields
      else FieldConfig.update o.coordinate (FieldConfig.requireAll o.required)
        (if o.argumentNames = [] then c.fields
        else FieldConfig.update o.coordinate (configureArguments retypings o) c.fields)) =
      if o.IsConfigured then FieldConfig.update o.coordinate (configure retypings o) c.fields
      else c.fields := by
    unfold Occurrence.IsConfigured configure
    by_cases ha : o.argumentNames = [] <;> by_cases hr : o.required = []
    · simp [ha, hr]
    · simp [ha, hr, configureArguments_of_nil retypings ha]
    · simp [ha, hr, FieldConfig.requireAll]
    · simp [ha, hr, FieldConfig.update_update (coordinate_configureArguments retypings o)]
  rw [hsteps, addChild_eq, addRequired_eq, addRoot_eq, addArguments_eq]
  simp only [decide_eq_true_eq, hfields]

theorem foldl_addOccurrence (os : List Occurrence) (c : Classification) :
    os.foldl (addOccurrence roots retypings) c = {
      rootNodes := ((os.filter (·.IsRootNode roots)).map (·.coordinate)).foldl NodeList.insert
        c.rootNodes
      childNodes := ((os.filter (·.IsChildNode roots)).map (·.coordinate)).foldl NodeList.insert
        c.childNodes
      fields := (os.filter (·.IsConfigured)).foldl (fun configs o =>
        FieldConfig.update o.coordinate (configure retypings o) configs) c.fields
      types := c.types } := by
  induction os generalizing c with
  | nil => rfl
  | cons o rest ih =>
    rw [List.foldl_cons, ih, addOccurrence_eq]
    simp only [List.filter_cons, decide_eq_true_eq]
    split_ifs <;> rfl

/-! ## Configurations in closed form -/

theorem argumentConfig_eq (field : Coordinate) (name : String) :
    argumentConfig retypings field name =
      ⟨name, .fieldArgument, [], .default, Document.sentType retypings field name⟩ := by
  unfold argumentConfig Document.sentType
  simp only
  split <;> rename_i h <;> rw [h] <;> rfl

theorem configure_eraseDups {o : Occurrence} {field : Coordinate} (ho : o.coordinate = field)
    (config : FieldConfig) (arguments required : List String) :
    configure retypings o { config with
        arguments := arguments.eraseDups.map (argumentConfig retypings field)
        requires := required.eraseDups } =
      { config with
        arguments := (arguments ++ o.argumentNames).eraseDups.map (argumentConfig retypings field)
        requires := (required ++ o.required).eraseDups } := by
  have hsent : ∀ name, (argumentConfig retypings field name).name = name := fun name => by
    rw [argumentConfig_eq]
  have harguments := FieldConfig.foldl_upsertArgument hsent
    { config with requires := required.eraseDups } arguments o.argumentNames
  rw [Occurrence.argumentNames, List.foldl_map] at harguments
  rw [configure, configureArguments, ho, harguments]
  exact FieldConfig.requireAll_eraseDups { config with
    arguments := (arguments ++ o.argumentNames).eraseDups.map (argumentConfig retypings field) }
    required o.required

theorem foldl_configure (field : Coordinate) (os : List Occurrence)
    (hos : ∀ o ∈ os, o.coordinate = field) (arguments required : List String) :
    os.foldl (fun config o => configure retypings o config) { FieldConfig.blank field with
        arguments := arguments.eraseDups.map (argumentConfig retypings field)
        requires := required.eraseDups } =
      { FieldConfig.blank field with
        arguments := (arguments ++ os.flatMap (·.argumentNames)).eraseDups.map
          (argumentConfig retypings field)
        requires := (required ++ os.flatMap (·.required)).eraseDups } := by
  induction os generalizing arguments required with
  | nil => simp
  | cons o rest ih =>
    have ho : o.coordinate = field := hos o List.mem_cons_self
    rw [List.foldl_cons, configure_eraseDups retypings ho,
      ih fun o ho => hos o (List.mem_cons_of_mem _ ho)]
    simp only [List.flatMap_cons, List.append_assoc]

theorem flatMap_filter_of_nil {α β : Type} (p : α → Prop) [DecidablePred p] (f : α → List β)
    (hf : ∀ a, ¬ p a → f a = []) (as : List α) : (as.filter p).flatMap f = as.flatMap f := by
  induction as with
  | nil => rfl
  | cons a rest ih =>
    by_cases h : p a
    · simp [h, ih]
    · simp [h, hf a h, ih]

/-- The configuration that the occurrences of a field leave behind. Those that configure nothing
make no difference. -/
theorem entryOf_configure (document : Document) (field : Coordinate) :
    entryOf FieldConfig.blank (configure retypings) Occurrence.coordinate
      (document.occurrences.filter (·.IsConfigured)) field =
      document.fieldConfig retypings field := by
  have hcomm : (document.occurrences.filter (·.IsConfigured)).filter (·.coordinate = field) =
      (document.occurrencesOf field).filter (·.IsConfigured) := by
    rw [Document.occurrencesOf, List.filter_filter, List.filter_filter]
    exact List.filter_congr fun o _ => Bool.and_comm _ _
  have harguments := flatMap_filter_of_nil Occurrence.IsConfigured Occurrence.argumentNames
    (fun o ho => by simpa using (not_or.1 ho).1) (document.occurrencesOf field)
  have hrequired := flatMap_filter_of_nil Occurrence.IsConfigured Occurrence.required
    (fun o ho => by simpa using (not_or.1 ho).2) (document.occurrencesOf field)
  have hfold := foldl_configure retypings field
    ((document.occurrencesOf field).filter (·.IsConfigured))
    (by simp [Document.occurrencesOf]) [] []
  rw [entryOf, hcomm]
  refine hfold.trans ?_
  rw [List.nil_append, List.nil_append, harguments, hrequired, Document.fieldConfig,
    funext (argumentConfig_eq retypings field)]

end Classification

/-! ## The classification -/

theorem foldl_update_configure (document : Document) (retypings : List ArgumentRetyping) :
    (document.occurrences.filter (·.IsConfigured)).foldl (fun configs o =>
        FieldConfig.update o.coordinate (Classification.configure retypings o) configs) [] =
      (document.fieldsWith (·.IsConfigured)).eraseDups.map (document.fieldConfig retypings) := by
  have hconfigure : ∀ (o : Occurrence) (config : FieldConfig), config.coordinate = o.coordinate →
      (Classification.configure retypings o config).coordinate = o.coordinate := by
    intro o config h
    rw [Classification.configure, FieldConfig.coordinate_requireAll,
      Classification.coordinate_configureArguments, h]
  simp only [FieldConfig.update_eq_upsert]
  rw [foldl_upsert (fun _ => rfl) hconfigure]
  exact List.map_congr_left fun field _ =>
    Classification.entryOf_configure retypings document field

/-- What the occurrences in a document amount to. -/
def Document.classification (document : Document) (retypings : List ArgumentRetyping) :
    Classification where
  rootNodes := .group (document.fieldsWith (·.IsRootNode (RootTypes.ofDocument document)))
  childNodes := .group (document.fieldsWith (·.IsChildNode (RootTypes.ofDocument document)))
  fields := (document.fieldsWith (·.IsConfigured)).eraseDups.map (document.fieldConfig retypings)
  types := []

theorem classify_eq (schema : Document) (service : Option Document)
    (retypings : List ArgumentRetyping) :
    classify schema service retypings =
      okUnless ((service.getD schema).keyTexts.findSome? FieldSet.errorIn?)
        ((service.getD schema).classification retypings) := by
  unfold classify
  simp only [Classification.foldlM_addContainer, Classification.foldl_addOccurrence]
  rw [Document.classification, ← foldl_update_configure, ← NodeList.foldl_insert,
    ← NodeList.foldl_insert]
  rfl

theorem classify_eq_ok {schema : Document} {service : Option Document}
    {retypings : List ArgumentRetyping} {c : Classification} :
    classify schema service retypings = .ok c ↔
      (service.getD schema).keyTexts.findSome? FieldSet.errorIn? = none ∧
        (service.getD schema).classification retypings = c := by
  rw [classify_eq]
  cases (service.getD schema).keyTexts.findSome? FieldSet.errorIn? <;> simp [okUnless]

/-- **The exact result of a classification.** Inserting fields one by one gives one entry per type,
and every entry has its fields once, both in the order of their first insertion. The visitor that
classifies field by field ends with this result, too, or with its error, and with nothing noted. -/
theorem classification_exact (schema : Document) (service : Option Document)
    (retypings : List ArgumentRetyping) :
    let document := service.getD schema
    let roots := RootTypes.ofDocument document
    let exact : Except Error Classification :=
      match document.keyTexts.findSome? FieldSet.errorIn? with
      | some error => .error error
      | none => .ok {
          rootNodes := (document.fieldsWith (·.IsRootNode roots)).foldl NodeList.insert []
          childNodes := (document.fieldsWith (·.IsChildNode roots)).foldl NodeList.insert []
          fields := (document.fieldsWith (·.IsConfigured)).eraseDups.map
            (document.fieldConfig retypings)
          types := [] }
    classify schema service retypings = exact ∧
      Visit.after ((Visit.visitor roots retypings).walk document) (.outside .empty) =
        exact.map .outside ∧
      ∀ fields : List Coordinate, fields.foldl NodeList.insert [] = NodeList.group fields := by
  intro document roots exact
  have hexact : classify schema service retypings = exact := by
    rw [classify_eq]
    simp only [exact, NodeList.foldl_insert]
    rfl
  refine ⟨hexact, ?_, NodeList.foldl_insert⟩
  rw [← hexact]
  exact Visit.after_walk retypings schema service

end Supergraph
