import Supergraph.Language.Value

/-!
# Schema documents

A document is a list of definitions. Type definitions and type extensions have one shape: a name,
directives, and a body that depends on the kind of the type; a definition may be described.

Object and interface types are the *containers* of fields. `Document.containers` lists them in
document order, definitions and extensions alike, and most of what is said about a schema is said
about that list.
-/

namespace Supergraph

/-- An argument of a field or directive, or a field of an input type. -/
structure InputField where
  description : Option String
  name : String
  type : TypeRef
  default : Option Value
  directives : List Directive
deriving Repr, Inhabited

/-- A field of an object or interface type. -/
structure Field where
  description : Option String
  name : String
  arguments : List InputField
  type : TypeRef
  directives : List Directive
deriving Repr, Inhabited

/-- A value of an enum type. -/
structure EnumValue where
  description : Option String
  name : String
  directives : List Directive
deriving Repr, Inhabited

/-- The two kinds of types that hold fields. -/
inductive ContainerKind where
  | object
  | interface
deriving DecidableEq, Repr, Inhabited

/-- What a type definition or extension says besides its name and directives. -/
inductive TypeBody where
  | scalar
  | container (kind : ContainerKind) (interfaces : List String) (fields : List Field)
  | union (members : List String)
  | enum (values : List EnumValue)
  | input (fields : List InputField)
deriving Repr, Inhabited

/-- The common shape of type definitions and type extensions. -/
structure TypeDeclaration where
  name : String
  directives : List Directive
  body : TypeBody
deriving Repr, Inhabited

/-- The root operation types that a `schema` definition names. -/
structure RootOperations where
  query : Option String
  mutation : Option String
  subscription : Option String
deriving DecidableEq, Repr, Inhabited

/-- A definition of a directive. The locations are held as written. -/
structure DirectiveDefinition where
  description : Option String
  name : String
  arguments : List InputField
  repeatable : Bool
  locations : List String
deriving Repr, Inhabited

/-- A top-level definition. -/
inductive Definition where
  | schema (directives : List Directive) (roots : RootOperations)
  | type (description : Option String) (declaration : TypeDeclaration)
  | extension (declaration : TypeDeclaration)
  | directive (definition : DirectiveDefinition)
deriving Repr, Inhabited

/-- A schema document. -/
structure Document where
  definitions : List Definition
deriving Repr, Inhabited

/-- An object or interface type, defined or extended. -/
structure Container where
  isExtension : Bool
  kind : ContainerKind
  name : String
  directives : List Directive
  fields : List Field
deriving Repr, Inhabited

namespace Definition

/-- The type declaration of a definition or extension of a type. -/
def declaration? : Definition → Option TypeDeclaration
  | type _ declaration => some declaration
  | extension declaration => some declaration
  | schema _ _ => none
  | directive _ => none

/-- Applies `f` to the type declaration of a definition or extension of a type. -/
def mapDeclaration (f : TypeDeclaration → TypeDeclaration) : Definition → Definition
  | type description declaration => type description (f declaration)
  | extension declaration => extension (f declaration)
  | schema directives roots => schema directives roots
  | directive definition => directive definition

/-- Whether a definition extends a type. -/
def isExtension : Definition → Bool
  | extension _ => true
  | _ => false

/-- The container that a definition declares. -/
def container? (definition : Definition) : Option Container :=
  match definition.declaration? with
  | some ⟨name, directives, .container kind _ fields⟩ =>
    some ⟨definition.isExtension, kind, name, directives, fields⟩
  | _ => none

end Definition

namespace Document

/-- The definitions and extensions of types, in order. -/
def declarations (document : Document) : List TypeDeclaration :=
  document.definitions.filterMap Definition.declaration?

/-- The names of the declared types, in order and as often as they are declared. -/
def declaredNames (document : Document) : List String := document.declarations.map (·.name)

/-- The containers of fields, in order. -/
def containers (document : Document) : List Container :=
  document.definitions.filterMap Definition.container?

end Document

/-- Scalar types that every schema has. -/
def builtinScalars : List String := ["Int", "Float", "String", "Boolean", "ID"]

/-- Whether `name` is a scalar type that every schema has. -/
def isBuiltinScalar (name : String) : Bool := builtinScalars.contains name

end Supergraph
