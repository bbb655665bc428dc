import Mathlib.Data.List.Nodup
import Supergraph.Error
import Supergraph.Walk

/-!
# Walks as runs over events

Where a walk goes does not depend on the visitor. A document has one list of *events*
(`Document.events`), given by recursion on its parts: a node is entered, then come the events of the
nodes inside it, and it is left. Nodes that look alike are told apart by their paths.

**Theorem (`walk_follows_events`).** The events are well bracketed, and every node of the document
is entered once and left once. For every visitor a walk is a run over the events in order. It fails
exactly if an event fails and all events before it went well, with the error of that event and in
the state that it left. A visitor that only acts on entering, or only on leaving, runs over those
events.

**Proof.** All events of a node stand between the two of the node itself (`bracket`), and the nodes
of one kind inside it are taken in order (`numbered`). Brackets, paths and runs are followed through
these two.
-/

namespace Supergraph

/-! ## Nodes and their paths -/

/-- Where a node stands in a document. Definitions, directives, fields and arguments are counted
from zero. -/
inductive NodePath where
  | container (definition : Nat)
  | containerDirective (definition directive : Nat)
  | field (definition field : Nat)
  | fieldDirective (definition field directive : Nat)
  | argument (definition field argument : Nat)
  | argumentDirective (definition field argument directive : Nat)
deriving DecidableEq, Repr, Inhabited

/-- The number of the definition that a node is part of. -/
def NodePath.definition : NodePath → Nat
  | .container i | .containerDirective i _ | .field i _ | .fieldDirective i _ _
  | .argument i _ _ | .argumentDirective i _ _ _ => i

namespace Document

/-- The container that a definition declares, by its number. -/
def containerAt? (document : Document) (i : Nat) : Option Container :=
  document.definitions[i]?.bind Definition.container?

/-- The node at a path. -/
def nodeAt? (document : Document) : NodePath → Option Node
  | .container i => (document.containerAt? i).map .container
  | .containerDirective i l => do
    let container ← document.containerAt? i
    container.directives[l]?.map .directive
  | .field i j => do
    let container ← document.containerAt? i
    container.fields[j]?.map .field
  | .fieldDirective i j l => do
    let container ← document.containerAt? i
    let field ← container.fields[j]?
    field.directives[l]?.map .directive
  | .argument i j k => do
    let container ← document.containerAt? i
    let field ← container.fields[j]?
    field.arguments[k]?.map .argument
  | .argumentDirective i j k l => do
    let container ← document.containerAt? i
    let field ← container.fields[j]?
    let argument ← field.arguments[k]?
    argument.directives[l]?.map .directive

end Document

/-! ## Events -/

/-- The two things that happen to a node. -/
inductive EventKind where
  | enter
  | leave
deriving DecidableEq, Repr, Inhabited

/-- A node is entered or left. -/
structure Event where
  kind : EventKind
  path : NodePath
  node : Node

/-- A node is entered, then comes what happens inside it, and it is left. -/
def bracket (path : NodePath) (node : Node) (inside : List Event) : List Event :=
  ⟨.enter, path, node⟩ :: (inside ++ [⟨.leave, path, node⟩])

/-- What happens to all items, one after the other. The items are counted from zero. -/
def numbered {α : Type} (events : Nat → α → List Event) (items : List α) : List Event :=
  (items.mapIdx events).flatten

theorem numbered_cons {α : Type} (events : Nat → α → List Event) (a : α) (rest : List α) :
    numbered events (a :: rest) = events 0 a ++ numbered (fun i => events (i + 1)) rest := by
  rw [numbered, List.mapIdx_cons, List.flatten_cons, ← numbered]

/-- A directive is left as soon as it is entered. -/
def Directive.events (path : NodePath) (directive : Directive) : List Event :=
  bracket path (.directive directive) []

/-- The directives of an argument stand inside it. -/
def InputField.events (i j k : Nat) (argument : InputField) : List Event :=
  bracket (.argument i j k) (.argument argument)
    (numbered (fun l => Directive.events (.argumentDirective i j k l)) argument.directives)

/-- The arguments of a field come before its directives. -/
def Field.events (i j : Nat) (field : Field) : List Event :=
  bracket (.field i j) (.field field)
    (numbered (InputField.events i j) field.arguments ++
      numbered (fun l => Directive.events (.fieldDirective i j l)) field.directives)

/-- The directives of a container come before its fields. -/
def Container.events (i : Nat) (container : Container) : List Event :=
  bracket (.container i) (.container container)
    (numbered (fun l => Directive.events (.containerDirective i l)) container.directives ++
      numbered (Field.events i) container.fields)

/-- Only containers are walked over. -/
def Definition.events (i : Nat) (definition : Definition) : List Event :=
  definition.container?.elim [] (Container.events i)

/-- What happens on a walk over the document. -/
def Document.events (document : Document) : List Event :=
  numbered Definition.events document.definitions

/-! ## Brackets -/

/-- Whether every event of entering a node is matched by one of leaving it, properly nested. -/
inductive WellBracketed : List Event → Prop where
  | nil : WellBracketed []
  | node {inside rest : List Event} (path : NodePath) (node : Node) (hinside : WellBracketed inside)
      (hrest : WellBracketed rest) : WellBracketed (bracket path node inside ++ rest)

namespace WellBracketed

variable {first second : List Event}

theorem append (hfirst : WellBracketed first) (hsecond : WellBracketed second) :
    WellBracketed (first ++ second) := by
  induction hfirst with
  | nil => exact hsecond
  | node path n hinside _ _ ih =>
    rw [List.append_assoc]
    exact .node path n hinside ih

theorem bracket (path : NodePath) (node : Node) (h : WellBracketed first) :
    WellBracketed (bracket path node first) := by
  simpa using WellBracketed.node path node h .nil

theorem numbered {α : Type} {events : Nat → α → List Event}
    (h : ∀ i a, WellBracketed (events i a)) (items : List α) :
    WellBracketed (numbered events items) := by
  induction items generalizing events with
  | nil => exact .nil
  | cons a rest ih =>
    rw [numbered_cons]
    exact (h 0 a).append (ih fun i => h (i + 1))

end WellBracketed

theorem Document.wellBracketed_events (document : Document) : WellBracketed document.events := by
  have hdirective (path : NodePath) (directive : Directive) :
      WellBracketed (directive.events path) := .bracket _ _ .nil
  have hargument (i j k : Nat) (argument : InputField) : WellBracketed (argument.events i j k) :=
    .bracket _ _ (.numbered (fun _ => hdirective _) _)
  have hfield (i j : Nat) (field : Field) : WellBracketed (field.events i j) :=
    .bracket _ _ (.append (.numbered (hargument i j) _) (.numbered (fun _ => hdirective _) _))
  have hcontainer (i : Nat) (container : Container) : WellBracketed (container.events i) :=
    .bracket _ _ (.append (.numbered (fun _ => hdirective _) _) (.numbered (hfield i) _))
  refine .numbered (fun i definition => ?_) _
  unfold Definition.events
  cases definition.container? with
  | none => exact .nil
  | some container => exact hcontainer i container

/-! ## Occurrences -/

section Occurrences

variable {α : Type} {event : Event} {path : NodePath} {node : Node} {inside : List Event}
  {events : Nat → α → List Event} {items : List α}

@[simp] theorem mem_bracket :
    event ∈ bracket path node inside ↔ event.path = path ∧ event.node = node ∨ event ∈ inside := by
  obtain ⟨kind, path', node'⟩ := event
  cases kind <;> simp [bracket, or_comm]

@[simp] theorem mem_numbered :
    event ∈ numbered events items ↔ ∃ i a, items[i]? = some a ∧ event ∈ events i a := by
  simp only [numbered, List.mem_flatten, List.mem_mapIdx, List.getElem?_eq_some_iff]
  constructor
  · rintro ⟨_, ⟨i, hi, rfl⟩, h⟩
    exact ⟨i, _, ⟨hi, rfl⟩, h⟩
  · rintro ⟨i, _, ⟨hi, rfl⟩, h⟩
    exact ⟨_, ⟨i, hi, rfl⟩, h⟩

theorem Document.mem_events_iff {document : Document} :
    event ∈ document.events ↔
      ∃ i container, document.containerAt? i = some container ∧ event ∈ container.events i := by
  have hdefinition (i : Nat) (definition : Definition) : event ∈ definition.events i ↔
      ∃ container, definition.container? = some container ∧ event ∈ container.events i := by
    unfold Definition.events
    cases definition.container? <;> simp
  simp only [Document.events, mem_numbered, hdefinition, containerAt?, Option.bind_eq_some_iff]
  constructor
  · rintro ⟨i, definition, hi, container, hc, h⟩
    exact ⟨i, container, ⟨definition, hi, hc⟩, h⟩
  · rintro ⟨i, container, ⟨definition, hi, hc⟩, h⟩
    exact ⟨i, definition, hi, container, hc, h⟩

/-- Events happen to the nodes of the document. -/
theorem Document.mem_events {document : Document} :
    event ∈ document.events ↔ document.nodeAt? event.path = some event.node := by
  obtain ⟨kind, path, node⟩ := event
  rw [mem_events_iff]
  cases path <;>
    simp [nodeAt?, Container.events, Field.events, InputField.events, Directive.events,
      Option.bind_eq_some_iff, @eq_comm _ node]

/-- Whether two events are not the same: they happen to different nodes, or one of them enters and
the other one leaves. -/
def Event.Differ (first second : Event) : Prop :=
  first.path = second.path → first.kind ≠ second.kind

/-- Whether no two events are the same, and all of them happen to nodes at certain paths. -/
structure Distinct (paths : NodePath → Prop) (events : List Event) : Prop where
  differ : events.Pairwise Event.Differ
  located : ∀ event ∈ events, paths event.path

namespace Distinct

variable {paths others : NodePath → Prop} {first second : List Event}

theorem nil : Distinct paths [] := ⟨.nil, by simp⟩

theorem mono (h : Distinct paths first) (hothers : ∀ path, paths path → others path) :
    Distinct others first where
  differ := h.differ
  located event hevent := hothers _ (h.located event hevent)

theorem append (hfirst : Distinct paths first) (hsecond : Distinct others second)
    (hapart : ∀ path, paths path → ¬ others path) :
    Distinct (fun path => paths path ∨ others path) (first ++ second) where
  differ := List.pairwise_append.2 ⟨hfirst.differ, hsecond.differ, fun event h event' h' e =>
    absurd (e ▸ hsecond.located event' h') (hapart _ (hfirst.located event h))⟩
  located := by
    intro event h
    exact (List.mem_append.1 h).imp (hfirst.located event) (hsecond.located event)

theorem bracket (hinside : Distinct paths inside) (hpath : ¬ paths path) :
    Distinct (fun path' => path' = path ∨ paths path') (bracket path node inside) where
  differ := by
    refine List.pairwise_cons.2 ⟨fun event h e => ?_, List.pairwise_append.2
      ⟨hinside.differ, List.pairwise_singleton _ _, fun event h last hlast e => ?_⟩⟩
    · rcases List.mem_append.1 h with h | h
      · exact absurd (hinside.located event h) (e ▸ hpath)
      · obtain rfl := List.mem_singleton.1 h
        exact EventKind.noConfusion
    · obtain rfl := List.mem_singleton.1 hlast
      exact absurd (hinside.located event h) (e ▸ hpath)
  located := by
    intro event h
    exact (mem_bracket.1 h).imp And.left (hinside.located event)

theorem numbered {paths : Nat → NodePath → Prop} (heach : ∀ i a, Distinct (paths i) (events i a))
    (hapart : ∀ i j path, paths i path → paths j path → i = j) (items : List α) :
    Distinct (fun path => ∃ i, paths i path) (numbered events items) where
  differ := by
    induction items generalizing events paths with
    | nil => exact .nil
    | cons a rest ih =>
      rw [numbered_cons]
      refine List.pairwise_append.2 ⟨(heach 0 a).differ, ?_, fun event h event' h' e => ?_⟩
      · exact ih (fun i => heach (i + 1)) fun i j path hi hj =>
          Nat.succ.inj (hapart (i + 1) (j + 1) path hi hj)
      · obtain ⟨i, b, -, h'⟩ := mem_numbered.1 h'
        have hi := hapart 0 (i + 1) _ ((heach 0 a).located event h)
          (e ▸ (heach (i + 1) b).located event' h')
        omega
  located := by
    intro event h
    obtain ⟨i, a, -, h⟩ := mem_numbered.1 h
    exact ⟨i, (heach i a).located event h⟩

end Distinct

/-- No event comes up twice. -/
theorem Document.pairwise_events (document : Document) :
    document.events.Pairwise Event.Differ := by
  -- From the leaves up: the events of a node stay at paths that no other node has.
  have hdirective (path : NodePath) (directive : Directive) :
      Distinct (· = path) (directive.events path) :=
    .mono (.bracket (@Distinct.nil fun _ => False) id) (by simp)
  have hargument (i j k : Nat) (argument : InputField) :
      Distinct (fun path => path = .argument i j k ∨ ∃ l, path = .argumentDirective i j k l)
        (argument.events i j k) :=
    .bracket (.numbered (fun l => hdirective (.argumentDirective i j k l)) (by grind) _) (by grind)
  have hfield (i j : Nat) (field : Field) :
      Distinct (fun path => path = .field i j ∨
          (∃ k, path = .argument i j k ∨ ∃ l, path = .argumentDirective i j k l) ∨
          ∃ l, path = .fieldDirective i j l) (field.events i j) :=
    .bracket (.append (.numbered (hargument i j) (by grind) _)
      (.numbered (fun l => hdirective (.fieldDirective i j l)) (by grind) _) (by grind)) (by grind)
  have hcontainer (i : Nat) (container : Container) :
      Distinct (fun path => path.definition = i) (container.events i) :=
    .mono (.bracket (.append
        (.numbered (fun l => hdirective (.containerDirective i l)) (by grind) _)
        (.numbered (hfield i) (by grind) _) (by grind)) (by grind))
      (by grind [NodePath.definition])
  have hdefinition (i : Nat) (definition : Definition) :
      Distinct (fun path => path.definition = i) (definition.events i) := by
    unfold Definition.events
    cases definition.container? with
    | none => exact .nil
    | some container => exact hcontainer i container
  exact (Distinct.numbered hdefinition (fun _ _ _ hi hj => hi.symm.trans hj) _).differ

end Occurrences

/-! ## Runs -/

namespace Visitor

section Runs

variable {m : Type → Type} [Monad m] (visitor : Visitor m)

def on (event : Event) : m Unit :=
  match event.kind with
  | .enter => visitor.enter event.node
  | .leave => visitor.leave event.node

/-- Acts on events, one after the other. -/
def run (events : List Event) : m Unit := forM events visitor.on

variable [LawfulMonad m]

theorem run_append (first second : List Event) :
    visitor.run (first ++ second) = (do visitor.run first; visitor.run second) :=
  List.forM_append

theorem run_bracket (path : NodePath) (node : Node) (inside : List Event) :
    visitor.run (bracket path node inside) =
      (do visitor.enter node; visitor.run inside; visitor.leave node) := by
  simp [run, bracket, on]

/-- Acting on what happens to items is walking over them item by item. -/
theorem run_numbered {α : Type} {events : Nat → α → List Event} (walk : List α → m Unit)
    (hnil : walk [] = pure ())
    (hcons : ∀ i a rest, walk (a :: rest) = (do visitor.run (events i a); walk rest))
    (items : List α) : visitor.run (numbered events items) = walk items := by
  induction items generalizing events with
  | nil => exact hnil.symm
  | cons a rest ih =>
    rw [numbered_cons, run_append, ih fun i => hcons (i + 1), hcons 0]

theorem run_directives (path : Nat → NodePath) (directives : List Directive) :
    visitor.run (numbered (fun l => Directive.events (path l)) directives) =
      visitor.directives directives := by
  refine visitor.run_numbered visitor.directives rfl (fun l directive rest => ?_) directives
  rw [Visitor.directives, Directive.events, run_bracket]
  simp [run]

theorem run_arguments (i j : Nat) (arguments : List InputField) :
    visitor.run (numbered (InputField.events i j) arguments) = visitor.arguments arguments := by
  refine visitor.run_numbered visitor.arguments rfl (fun k argument rest => ?_) arguments
  rw [Visitor.arguments, InputField.events, run_bracket, run_directives]
  simp

theorem run_fields (i : Nat) (fields : List Field) :
    visitor.run (numbered (Field.events i) fields) = visitor.fields fields := by
  refine visitor.run_numbered visitor.fields rfl (fun j field rest => ?_) fields
  rw [Visitor.fields, Field.events, run_bracket, run_append, run_arguments, run_directives]
  simp

/-- A walk is a run over the events of the document. -/
theorem run_events (document : Document) : visitor.run document.events = visitor.walk document := by
  refine visitor.run_numbered
    (fun definitions => visitor.containers (definitions.filterMap Definition.container?)) rfl
    (fun i definition rest => ?_) document.definitions
  rw [Definition.events, List.filterMap_cons]
  cases definition.container? with
  | none => simp [run]
  | some container =>
    rw [Visitor.containers, Option.elim_some, Container.events, run_bracket, run_append,
      run_directives, run_fields]
    simp

/-- The visitor that acts on events of one kind only. -/
def only : EventKind → Visitor m
  | .enter => ⟨visitor.enter, fun _ => pure ()⟩
  | .leave => ⟨fun _ => pure (), visitor.leave⟩

theorem run_only (kind : EventKind) (events : List Event) :
    (visitor.only kind).run events = visitor.run (events.filter (·.kind = kind)) := by
  induction events with
  | nil => rfl
  | cons event rest ih =>
    obtain ⟨kind', path, node⟩ := event
    unfold run at ih ⊢
    cases kind <;> cases kind' <;> simp [on, only, ← ih]

end Runs

/-! ### Failures -/

section Failures

variable {σ : Type} (visitor : Visitor (ExceptT Error (StateM σ)))

/-- Whether the events before `event` go well, from the state `s` on, and `event` then fails with
`error` and leaves the state `s'`. -/
def FailsAt (before : List Event) (event : Event) (s : σ) (error : Error) (s' : σ) : Prop :=
  ∃ s₁, (visitor.run before).run.run s = (.ok (), s₁) ∧
    (visitor.on event).run.run s₁ = (.error error, s')

theorem run_cons (event : Event) (rest : List Event) (s : σ) :
    (visitor.run (event :: rest)).run.run s =
      match (visitor.on event).run.run s with
      | (.ok (), s₁) => (visitor.run rest).run.run s₁
      | (.error error, s₁) => (.error error, s₁) := by
  rw [run, List.forM_cons, ExceptT.run_bind, StateT.run_bind]
  obtain ⟨_ | _, s₁⟩ := (visitor.on event).run.run s <;> rfl

/-- **A run fails where its first event does.** Events after that one do not happen. -/
theorem run_eq_error {events : List Event} {s s' : σ} {error : Error} :
    (visitor.run events).run.run s = (.error error, s') ↔
      ∃ before event after, events = before ++ event :: after ∧
        visitor.FailsAt before event s error s' := by
  induction events generalizing s with
  | nil =>
    constructor
    · intro h
      cases h
    · rintro ⟨before, event, after, h, -⟩
      cases before <;> cases h
  | cons event rest ih =>
    rw [run_cons]
    -- Either the first event fails, and nothing stands before it, or the failure is in the rest.
    rcases hevent : (visitor.on event).run.run s with ⟨error' | ⟨⟩, s₁⟩
    · constructor
      · rintro ⟨⟩
        exact ⟨[], event, rest, rfl, s, rfl, hevent⟩
      · rintro ⟨before, last, after, h, s₂, hbefore, hlast⟩
        cases before with
        | nil =>
          obtain ⟨rfl, rfl⟩ := List.cons.inj h
          cases hbefore
          exact hevent.symm.trans hlast
        | cons first before =>
          obtain ⟨rfl, rfl⟩ := List.cons.inj h
          rw [run_cons, hevent] at hbefore
          cases hbefore
    · constructor
      · intro h
        obtain ⟨before, last, after, rfl, s₂, hbefore, hlast⟩ := ih.1 h
        refine ⟨event :: before, last, after, rfl, s₂, ?_, hlast⟩
        rw [run_cons, hevent]
        exact hbefore
      · rintro ⟨before, last, after, h, s₂, hbefore, hlast⟩
        cases before with
        | nil =>
          obtain ⟨rfl, rfl⟩ := List.cons.inj h
          cases hbefore
          -- The first event went well.
          cases hevent.symm.trans hlast
        | cons first before =>
          obtain ⟨rfl, rfl⟩ := List.cons.inj h
          rw [run_cons, hevent] at hbefore
          exact ih.2 ⟨before, last, after, rfl, s₂, hbefore, hlast⟩

end Failures

end Visitor

/-! ## Walks -/

/-- Whether events are a tour of a document: well bracketed, at its nodes only, and each node is
entered once and left once. -/
structure Document.IsTour (document : Document) (events : List Event) : Prop where
  bracketed : WellBracketed events
  nodes : ∀ event, event ∈ events ↔ document.nodeAt? event.path = some event.node
  once : events.Pairwise Event.Differ

/-- Whether a walk stops at the first event that fails, with the error of that event and in the
state that it left. -/
def Visitor.StopsAtFirstError {σ : Type} (visitor : Visitor (ExceptT Error (StateM σ)))
    (events : List Event) (walk : ExceptT Error (StateM σ) Unit) : Prop :=
  ∀ s error s', walk.run.run s = (.error error, s') ↔
    ∃ before event after, events = before ++ event :: after ∧
      visitor.FailsAt before event s error s'

theorem Document.isTour_events (document : Document) : document.IsTour document.events where
  bracketed := document.wellBracketed_events
  nodes _ := Document.mem_events
  once := document.pairwise_events

/-- **A walk is a run over one list of events.** The events are a tour of the document and do not
depend on the visitor. A visitor that acts on events of one kind only runs over those, and a visitor
that may fail stops at the first event that does. -/
theorem walk_follows_events (document : Document) :
    document.IsTour document.events ∧
    (∀ (m : Type → Type) [Monad m] [LawfulMonad m] (visitor : Visitor m),
      visitor.walk document = visitor.run document.events ∧
      ∀ kind, (visitor.only kind).walk document =
        visitor.run (document.events.filter (·.kind = kind))) ∧
    ∀ (σ : Type) (visitor : Visitor (ExceptT Error (StateM σ))),
      visitor.StopsAtFirstError document.events (visitor.walk document) ∧
      ∀ kind, visitor.StopsAtFirstError (document.events.filter (·.kind = kind))
        ((visitor.only kind).walk document) := by
  refine ⟨document.isTour_events, fun m _ _ visitor => ⟨?_, fun kind => ?_⟩,
    fun σ visitor => ⟨fun s error s' => ?_, fun kind s error s' => ?_⟩⟩
  · exact (visitor.run_events document).symm
  · rw [← Visitor.run_events, Visitor.run_only]
  · rw [← Visitor.run_events]
    exact visitor.run_eq_error
  · rw [← Visitor.run_events, Visitor.run_only]
    exact visitor.run_eq_error

/-- A service that adds reviews to the users of another one. -/
def reviewedUsers : Document :=
  ⟨[.type none ⟨"Ignored", [], .input [⟨none, "a", .named "Int", none, []⟩]⟩,
    .extension ⟨"User", [⟨"key", [("fields", .string "id")]⟩], .container .object [] [
      ⟨none, "id", [], .nonNull (.named "ID"), [⟨"external", []⟩]⟩,
      ⟨none, "reviews", [⟨none, "first", .named "Int", none, [⟨"deprecated", []⟩]⟩],
        .list (.named "String"), []⟩]⟩]⟩

/-- Notes what it comes to, and fails on leaving an argument. -/
def notesUpToArgument : Visitor (ExceptT Error (StateM (List String))) where
  enter node := modify (· ++ ["enter " ++ node.label])
  leave node := do
    modify (· ++ ["leave " ++ node.label])
    match node with
    | .argument _ => throw (Error.introspectionFailed "an argument")
    | _ => pure ()

/-- The last thing noted is the event that failed; the field and the type are not left. -/
theorem walk_follows_events_reviewedUsers :
    LawfulMonad (ExceptT Error (StateM (List String))) ∧
    reviewedUsers.IsTour reviewedUsers.events ∧
    (notesUpToArgument.walk reviewedUsers).run.run [] =
      (.error (.introspectionFailed "an argument"),
        ["enter extend type User", "enter @key", "leave @key", "enter field id: ID!",
          "enter @external", "leave @external", "leave field id: ID!",
          "enter field reviews: [String]", "enter arg first: Int", "enter @deprecated",
          "leave @deprecated", "leave arg first: Int"]) ∧
    ((notesUpToArgument.only .enter).walk reviewedUsers).run.run [] =
      (.ok (), ["enter extend type User", "enter @key", "enter field id: ID!", "enter @external",
        "enter field reviews: [String]", "enter arg first: Int", "enter @deprecated"]) := by
  obtain ⟨htour, hruns, -⟩ := walk_follows_events reviewedUsers
  obtain ⟨hall, honly⟩ := hruns _ notesUpToArgument
  refine ⟨inferInstance, htour, ?_, ?_⟩
  · rw [hall]
    rfl
  · rw [honly .enter]
    rfl

end Supergraph
