import Supergraph.Schema.Printer

/-!
# Walking over a document

A walk visits what a document says about fields, in document order. It enters each container, then
visits the container's directives and fields, and leaves it. A field is entered, then come its
arguments, each with its own directives inside, then the directives of the field, and the field is
left. A directive is left as soon as it is entered.

A `Visitor` acts on entering and on leaving, in any monad; in a monad with exceptions the first
failure ends the walk.
-/

namespace Supergraph

/-- What a walk visits. -/
inductive Node where
  | container (container : Container)
  | directive (directive : Directive)
  | field (field : Field)
  | argument (argument : InputField)
deriving Repr, Inhabited

/-- What to do on entering and on leaving a node. -/
structure Visitor (m : Type → Type) where
  enter : Node → m Unit
  leave : Node → m Unit

namespace Visitor

variable {m : Type → Type} [Monad m] (visitor : Visitor m)

def directives : List Directive → m Unit
  | [] => pure ()
  | directive :: rest => do
    visitor.enter (.directive directive)
    visitor.leave (.directive directive)
    directives rest

def arguments : List InputField → m Unit
  | [] => pure ()
  | argument :: rest => do
    visitor.enter (.argument argument)
    visitor.directives argument.directives
    visitor.leave (.argument argument)
    arguments rest

def fields : List Field → m Unit
  | [] => pure ()
  | field :: rest => do
    visitor.enter (.field field)
    visitor.arguments field.arguments
    visitor.directives field.directives
    visitor.leave (.field field)
    fields rest

def containers : List Container → m Unit
  | [] => pure ()
  | container :: rest => do
    visitor.enter (.container container)
    visitor.directives container.directives
    visitor.fields container.fields
    visitor.leave (.container container)
    containers rest

/-- Walks over a document. -/
def walk (document : Document) : m Unit := visitor.containers document.containers

end Visitor

/-! ## Labels -/

/-- The kind of a container as it is written in front of its name. -/
def Container.title (container : Container) : String :=
  (if container.isExtension then "extend " else "") ++
    match container.kind with
    | .object => "type"
    | .interface => "interface"

/-- A short description of a node. -/
def Node.label : Node → String
  | .container c => c.title ++ " " ++ c.name
  | .directive d => "@" ++ d.name
  | .field f => "field " ++ f.name ++ ": " ++ f.type.print
  | .argument a => "arg " ++ a.name ++ ": " ++ a.type.print

end Supergraph
