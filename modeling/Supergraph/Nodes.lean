/-!
# Nodes

A data source resolves fields of types. A `NodeList` says which: one entry per type, with its
fields. `NodeList.insert` keeps both levels free of repetitions and in the order of first insertion.
-/

namespace Supergraph

/-- A type and some of its fields. -/
structure TypeFields where
  typeName : String
  fieldNames : List String
deriving DecidableEq, Repr, Inhabited

/-- A field of a type. -/
structure Coordinate where
  typeName : String
  fieldName : String
deriving DecidableEq, Repr, Inhabited

namespace TypeFields

/-- Adds a field, unless it is listed. -/
def add (node : TypeFields) (fieldName : String) : TypeFields :=
  if node.fieldNames.contains fieldName then node
  else { node with fieldNames := node.fieldNames ++ [fieldName] }

/-- The entry of a type with the given fields, each once. -/
def ofFields (typeName : String) (fieldNames : List String) : TypeFields :=
  fieldNames.foldl add ⟨typeName, []⟩

def has (node : TypeFields) (fieldName : String) : Bool := node.fieldNames.contains fieldName

def coordinates (node : TypeFields) : List Coordinate :=
  node.fieldNames.map fun fieldName => ⟨node.typeName, fieldName⟩

end TypeFields

/-- The fields that a data source resolves, by type. -/
abbrev NodeList := List TypeFields

namespace NodeList

/-- Adds a field of a type to the first entry of the type, or in a new entry at the end. -/
def insert : NodeList → Coordinate → NodeList
  | [], field => [.ofFields field.typeName [field.fieldName]]
  | node :: rest, field =>
    if node.typeName = field.typeName then node.add field.fieldName :: rest
    else node :: insert rest field

def coordinates (nodes : NodeList) : List Coordinate := nodes.flatMap TypeFields.coordinates

/-- Whether some entry of the type lists the field. -/
def has (nodes : NodeList) (field : Coordinate) : Bool :=
  nodes.any fun node => node.typeName = field.typeName ∧ node.has field.fieldName

end NodeList

end Supergraph
