import Supergraph.Schema.Document

/-!
# Type names in a document

The places where a document names a type: declarations, implemented interfaces, union members, the
types of fields, arguments and input fields, and the root operations. `Document.mapTypeNames`
applies a function there and keeps everything else; `Document.typeNames` lists the names in those
places.
-/

namespace Supergraph

namespace InputField

/-- Applies `f` to the type. -/
def mapTypeNames (f : String → String) (field : InputField) : InputField :=
  { field with type := field.type.mapInner f }

end InputField

namespace Field

/-- Applies `f` to the type and the types of the arguments. -/
def mapTypeNames (f : String → String) (field : Field) : Field :=
  { field with type := field.type.mapInner f, arguments := field.arguments.map (·.mapTypeNames f) }

def typeNames (field : Field) : List String :=
  field.type.inner :: field.arguments.map (·.type.inner)

end Field

namespace TypeBody

def mapTypeNames (f : String → String) : TypeBody → TypeBody
  | scalar => scalar
  | container kind interfaces fields =>
    container kind (interfaces.map f) (fields.map (·.mapTypeNames f))
  | union members => union (members.map f)
  | enum values => enum values
  | input fields => input (fields.map (·.mapTypeNames f))

def typeNames : TypeBody → List String
  | scalar => []
  | container _ interfaces fields => interfaces ++ fields.flatMap Field.typeNames
  | union members => members
  | enum _ => []
  | input fields => fields.map (·.type.inner)

end TypeBody

namespace TypeDeclaration

def mapTypeNames (f : String → String) (declaration : TypeDeclaration) : TypeDeclaration :=
  { declaration with name := f declaration.name, body := declaration.body.mapTypeNames f }

end TypeDeclaration

namespace RootOperations

def mapTypeNames (f : String → String) (roots : RootOperations) : RootOperations :=
  ⟨roots.query.map f, roots.mutation.map f, roots.subscription.map f⟩

def typeNames (roots : RootOperations) : List String :=
  roots.query.toList ++ roots.mutation.toList ++ roots.subscription.toList

end RootOperations

namespace Definition

def mapTypeNames (f : String → String) : Definition → Definition
  | schema directives roots => schema directives (roots.mapTypeNames f)
  | type description declaration => type description (declaration.mapTypeNames f)
  | extension declaration => extension (declaration.mapTypeNames f)
  | directive d => directive { d with arguments := d.arguments.map (·.mapTypeNames f) }

def typeNames : Definition → List String
  | schema _ roots => roots.typeNames
  | type _ declaration => declaration.name :: declaration.body.typeNames
  | extension declaration => declaration.name :: declaration.body.typeNames
  | directive d => d.arguments.map (·.type.inner)

end Definition

namespace Document

/-- Applies `f` to every named type. -/
def mapTypeNames (f : String → String) (document : Document) : Document :=
  ⟨document.definitions.map (·.mapTypeNames f)⟩

/-- The named types, in document order. -/
def typeNames (document : Document) : List String := document.definitions.flatMap (·.typeNames)

end Document

end Supergraph
