import Supergraph.Classification
import Supergraph.Walk
import Supergraph.Proofs.InsertionOrder
import Supergraph.Proofs.Results

/-!
# The classification as a walk

`classify` has read all directives of a container and of a field before it classifies the field. A
visitor meets them one by one: it notes what it has seen of the container and of the field it is in,
classifies the field when it leaves it, and then has to forget.

**Theorem (`Visit.after_walk`).** A walk with this visitor ends with the result of `classify`, or
with its error, and with nothing noted.

**Proof.** One lemma per part of a document says how the notes change there. Between two fields the
notes are those on the container; between two containers there are none (`Visit.outside`).
-/

namespace Supergraph

/-- What has been noted on a container. -/
structure ContainerNotes where
  isExtension : Bool
  carriesExtends : Bool
  isEntity : Bool
  keys : List String

/-- The notes after some more directives, whose keys have the given fields. -/
def ContainerNotes.add (notes : ContainerNotes) (directives : List Directive)
    (keys : List String) : ContainerNotes where
  isExtension := notes.isExtension
  carriesExtends := notes.carriesExtends || Container.carries directives "extends"
  isEntity := notes.isEntity || Container.carries directives "key"
  keys := notes.keys ++ keys

/-- What the notes amount to. -/
def ContainerNotes.context (notes : ContainerNotes) (roots : RootTypes) (typeName : String) :
    Classification.Context where
  typeName := typeName
  isRoot := roots.isRoot typeName
  isExtension := notes.isExtension || notes.carriesExtends
  isEntity := notes.isEntity
  keys := notes.keys

/-- The classification so far, where the visitor is, and what it has noted. -/
structure Visit where
  result : Classification
  typeName : Option String
  fieldName : Option String
  isExternal : Bool
  notes : ContainerNotes

namespace Visit

/-! ## The visitor -/

/-- A visit outside of all containers. -/
def outside (c : Classification) : Visit := ⟨c, none, none, false, ⟨false, false, false, []⟩⟩

/-- Notes a directive: on a field only `external`, on a container only `extends` and `key`. -/
def enterDirective (directive : Directive) (v : Visit) : Except Error Visit :=
  match v.fieldName with
  | some _ => .ok (if directive.name = "external" then { v with isExternal := true } else v)
  | none =>
    if directive.name = "extends" then .ok { v with notes.carriesExtends := true }
    else if directive.name = "key" then
      match directive.stringArgument? "fields" with
      | some text => (FieldSet.parse text).map fun fields =>
          { v with notes.isEntity := true, notes.keys := v.notes.keys ++ fields.names }
      | none => .ok { v with notes.isEntity := true }
    else .ok v

/-- Configures an argument of the field. -/
def enterArgument (retypings : List ArgumentRetyping) (argument : InputField) (v : Visit) :
    Visit :=
  match v.typeName, v.fieldName with
  | some typeName, some fieldName =>
    { v with result := v.result.addArguments retypings ⟨typeName, fieldName⟩ [argument] }
  | _, _ => v

/-- Classifies the field, by one rule after the other, and forgets it. -/
def leaveField (roots : RootTypes) (v : Visit) : Visit :=
  match v.typeName, v.fieldName with
  | some typeName, some fieldName =>
    let field : Coordinate := ⟨typeName, fieldName⟩
    let isRoot := roots.isRoot typeName
    let own := ! v.isExternal
    let isEntity := v.notes.isEntity
    let isKey := v.notes.keys.contains fieldName
    let extended := (v.notes.isExtension || v.notes.carriesExtends) && isEntity && own
    { v with
      fieldName := none
      isExternal := false
      result := v.result
        |> .addRoot isRoot field
        |> .addRoot (isEntity && own) field
        |> .addRoot extended field
        |> .addRequired extended field v.notes.keys
        |> .addChild (! isRoot && ! extended && own) field
        |> .addChild (! own && isKey) field
        |> .addRequired (isEntity && ! isKey && own && ! extended) field v.notes.keys }
  | _, _ => { v with fieldName := none }

/-- What is noted on entering a node. -/
def enter (retypings : List ArgumentRetyping) : Node → Visit → Except Error Visit
  | .container container, v => .ok { v with
      typeName := some container.name
      notes.isExtension := container.isExtension
      notes.isEntity := false }
  | .directive directive, v => v.enterDirective directive
  | .field field, v => .ok { v with fieldName := some field.name }
  | .argument argument, v => .ok (v.enterArgument retypings argument)

/-- What is noted on leaving a node. -/
def leave (roots : RootTypes) : Node → Visit → Visit
  | .container _, v => { v with typeName := none, notes := ⟨false, false, false, []⟩ }
  | .directive _, v => v
  | .field _, v => v.leaveField roots
  | .argument _, v => v

/-- The visitor that classifies. -/
def visitor (roots : RootTypes) (retypings : List ArgumentRetyping) :
    Visitor (StateT Visit (Except Error)) where
  enter node v := (v.enter retypings node).map ((), ·)
  leave node v := .ok ((), v.leave roots node)

/-- The visit after some steps. -/
def after (steps : StateT Visit (Except Error) Unit) (v : Visit) : Except Error Visit :=
  (steps.run v).map (·.2)

variable (roots : RootTypes) (retypings : List ArgumentRetyping)

theorem after_pure (v : Visit) : after (pure ()) v = .ok v := rfl

theorem after_bind (first second : StateT Visit (Except Error) Unit) (v : Visit) :
    after (first >>= fun _ => second) v = after first v >>= fun v => after second v := by
  unfold after
  rw [StateT.run_bind]
  cases first.run v <;> rfl

theorem after_enter (node : Node) (v : Visit) :
    after ((visitor roots retypings).enter node) v = v.enter retypings node := by
  show ((v.enter retypings node).map (((), ·))).map (·.2) = _
  cases v.enter retypings node <;> rfl

theorem after_leave (node : Node) (v : Visit) :
    after ((visitor roots retypings).leave node) v = .ok (v.leave roots node) := rfl

/-! ## Directives -/

variable (c : Classification) (typeName fieldName : String) (isExternal : Bool)
  (notes : ContainerNotes)

theorem enterDirective_of_container (typeName? : Option String) (directive : Directive) :
    enterDirective directive ⟨c, typeName?, none, isExternal, notes⟩ =
      (Container.keyOf directive).map fun keys =>
        ⟨c, typeName?, none, isExternal, notes.add [directive] keys⟩ := by
  unfold enterDirective Container.keyOf
  by_cases hextends : directive.name = "extends"
  · simp [hextends, Except.map, ContainerNotes.add, Container.carries]
  by_cases hkey : directive.name = "key"
  · simp only [hkey, reduceIte]
    cases directive.stringArgument? "fields" with
    | none => simp [Except.map, ContainerNotes.add, Container.carries, hkey]
    | some text =>
      show (FieldSet.parse text).map _ = ((FieldSet.parse text).map _).map _
      cases FieldSet.parse text <;>
        simp [Except.map, ContainerNotes.add, Container.carries, hkey]
  · simp [hextends, hkey, Except.map, ContainerNotes.add, Container.carries]

/-- The directives of a container are noted all together. -/
theorem after_directives_of_container (typeName? : Option String) (directives : List Directive) :
    after ((visitor roots retypings).directives directives)
        ⟨c, typeName?, none, isExternal, notes⟩ =
      (Container.keysOf directives).map fun keys =>
        ⟨c, typeName?, none, isExternal, notes.add directives keys⟩ := by
  induction directives generalizing notes with
  | nil =>
    rw [Visitor.directives, after_pure]
    simp [Container.keysOf, Container.carries, ContainerNotes.add, Except.map]
  | cons directive rest ih =>
    rw [Visitor.directives, after_bind, after_enter, enter, enterDirective_of_container,
      Container.keysOf]
    cases Container.keyOf directive with
    | error error => rfl
    | ok first =>
      rw [Except.map, ok_bind, after_bind, after_leave, ok_bind, ok_bind, leave, ih]
      cases Container.keysOf rest with
      | error error => rfl
      | ok others =>
        simp [Except.map, bind, Except.bind, pure, Except.pure, Container.carries,
          ContainerNotes.add, Bool.or_assoc]

theorem enterDirective_of_field (directive : Directive) :
    enterDirective directive ⟨c, some typeName, some fieldName, isExternal, notes⟩ =
      .ok ⟨c, some typeName, some fieldName, isExternal || directive.name = "external", notes⟩ := by
  by_cases h : directive.name = "external" <;> simp [enterDirective, h]

/-- The directives of a field or of one of its arguments are noted all together. -/
theorem after_directives_of_field (directives : List Directive) :
    after ((visitor roots retypings).directives directives)
        ⟨c, some typeName, some fieldName, isExternal, notes⟩ =
      .ok ⟨c, some typeName, some fieldName,
        isExternal || Container.carries directives "external", notes⟩ := by
  induction directives generalizing isExternal with
  | nil => simp [Visitor.directives, after_pure, Container.carries]
  | cons directive rest ih =>
    rw [Visitor.directives, after_bind, after_enter, enter, enterDirective_of_field, ok_bind,
      after_bind, after_leave, ok_bind, leave, ih]
    simp [Container.carries, Bool.or_assoc]

/-! ## Fields -/

/-- The arguments of a field are configured all together. A mark on one of them stays noted. -/
theorem after_arguments (arguments : List InputField) :
    after ((visitor roots retypings).arguments arguments)
        ⟨c, some typeName, some fieldName, isExternal, notes⟩ =
      .ok ⟨c.addArguments retypings ⟨typeName, fieldName⟩ arguments, some typeName, some fieldName,
        isExternal || arguments.any (Container.carries ·.directives "external"), notes⟩ := by
  induction arguments generalizing c isExternal with
  | nil => simp [Visitor.arguments, after_pure, Classification.addArguments]
  | cons argument rest ih =>
    rw [Visitor.arguments, after_bind, after_enter, enter, ok_bind, after_bind, enterArgument,
      after_directives_of_field, ok_bind, after_bind, after_leave, ok_bind, leave, ih]
    simp [Classification.addArguments, Bool.or_assoc]

section Rules

variable {first second : Bool} {field : Coordinate} {others : List String} {c : Classification}

theorem addRoot_addRoot :
    (c.addRoot first field).addRoot second field = c.addRoot (first || second) field := by
  cases first <;> cases second <;> simp [Classification.addRoot, NodeList.insert_insert]

theorem addChild_addChild :
    (c.addChild first field).addChild second field = c.addChild (first || second) field := by
  cases first <;> cases second <;> simp [Classification.addChild, NodeList.insert_insert]

theorem addRequired_addChild :
    (c.addChild first field).addRequired second field others =
      (c.addRequired second field others).addChild first field := by
  cases first <;> simp only [Classification.addChild, Classification.addRequired] <;>
    split_ifs <;> rfl

theorem addRequired_addRequired (h : (first && second) = false) :
    (c.addRequired first field others).addRequired second field others =
      c.addRequired (first || second) field others := by
  cases first <;> cases second <;> simp_all [Classification.addRequired]

end Rules

/-- Rules that apply one after the other apply at once. -/
theorem leaveField_eq (field : Field) :
    leaveField roots ⟨c.addArguments retypings ⟨typeName, field.name⟩ field.arguments,
        some typeName, some field.name, field.isExternal, notes⟩ =
      ⟨c.addField retypings (notes.context roots typeName) field, some typeName, none, false,
        notes⟩ := by
  -- The rules overlap, and a field that several of them list is listed once.
  have hroot : ∀ isRoot extends' isEntity own : Bool,
      (isRoot || (isEntity && own || extends' && isEntity && own)) =
        (isRoot || isEntity && own) := by
    decide
  have hchild : ∀ isRoot extended own isKey : Bool,
      (! isRoot && ! extended && own || ! own && isKey) =
        (own && ! isRoot && ! extended || ! own && isKey) := by
    decide
  have hrequired : ∀ extended isEntity own isKey : Bool,
      (extended || isEntity && ! isKey && own && ! extended) =
        (extended || isEntity && own && ! isKey) := by
    decide
  -- Two rules add required fields, but never to the same field.
  have hexclusive : ∀ extended isEntity own isKey : Bool,
      (extended && (isEntity && ! isKey && own && ! extended)) = false := by
    decide
  unfold leaveField Classification.addField ContainerNotes.context
  dsimp only
  rw [addRoot_addRoot, addRoot_addRoot, addChild_addChild, addRequired_addChild,
    addRequired_addRequired (hexclusive _ _ _ _), hroot, hchild, hrequired]

/-- A field is classified with what is noted on its container, and nothing is noted that would
matter for the next field. -/
theorem after_fields (fields : List Field) :
    after ((visitor roots retypings).fields fields) ⟨c, some typeName, none, false, notes⟩ =
      .ok ⟨fields.foldl (Classification.addField retypings (notes.context roots typeName)) c,
        some typeName, none, false, notes⟩ := by
  induction fields generalizing c with
  | nil => rfl
  | cons field rest ih =>
    rw [Visitor.fields, after_bind, after_enter, enter, ok_bind, after_bind, after_arguments,
      ok_bind, after_bind, after_directives_of_field, ok_bind, after_bind, after_leave, ok_bind,
      leave, Bool.false_or]
    -- The marks that were noted are those that make a field external.
    show after _ (leaveField roots ⟨_, _, _, field.isExternal, _⟩) = _
    rw [leaveField_eq, ih, List.foldl_cons]

/-! ## Containers -/

/-- The fields of a container are classified, and nothing is noted that would matter for the next
container. -/
theorem after_containers (containers : List Container) :
    after ((visitor roots retypings).containers containers) (outside c) =
      (containers.foldlM (Classification.addContainer roots retypings) c).map outside := by
  induction containers generalizing c with
  | nil => rfl
  | cons container rest ih =>
    rw [Visitor.containers, after_bind, after_enter, enter, ok_bind, after_bind, outside,
      after_directives_of_container, List.foldlM_cons, Classification.addContainer, Container.keys]
    cases Container.keysOf container.directives with
    | error error => rfl
    | ok keys =>
      rw [Except.map, ok_bind, after_bind, after_fields, ok_bind, after_bind, after_leave, ok_bind,
        leave]
      -- Leaving has cleared the notes, so the rest begins like a new walk.
      exact ih _

/-- **Nothing is carried over.** A walk that notes directives as it meets them, and forgets what it
noted of a field or container when it leaves it, ends with the same classification or error. -/
theorem after_walk (schema : Document) (service : Option Document) :
    let document := service.getD schema
    after ((visitor (RootTypes.ofDocument document) retypings).walk document) (outside .empty) =
      (classify schema service retypings).map outside :=
  after_containers _ _ _ _

end Visit

end Supergraph
