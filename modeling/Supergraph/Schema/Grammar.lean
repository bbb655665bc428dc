import Supergraph.Language.Grammar
import Supergraph.Schema.Document

/-!
# Reading schema documents

The grammar of schema documents. No word is reserved: `type`, `input` and the like are names where a
name is expected. An extension has to add something to its type, and a `schema` definition names
each root operation at most once.
-/

namespace Supergraph.Schema

open Supergraph.Parser

/-! ## Parts of definitions -/

/-- A description, if a string comes next. -/
def description : Parser (Option String) := do
  match ← peek with
  | some (.string text) => skip; return some text
  | _ => return none

/-- The default value behind an equals sign. -/
def default (depth : Nat) : Parser (Option Value) := do
  if ← signIfNext .equals then return some (← value false depth) else return none

def inputField (depth : Nat) : Parser InputField := do
  let description ← description
  let name ← name
  sign .colon
  let type ← typeRef depth
  let default ← default depth
  return ⟨description, name, type, default, ← directives depth⟩

/-- The argument definitions of a field or directive. -/
def argumentDefinitions (depth : Nat) : Parser (List InputField) :=
  optionalBlock depth .openParen .closeParen inputField

def field (depth : Nat) : Parser Field := do
  let description ← description
  let name ← name
  let arguments ← argumentDefinitions depth
  sign .colon
  let type ← typeRef depth
  return ⟨description, name, arguments, type, ← directives depth⟩

def enumValue (depth : Nat) : Parser EnumValue := do
  let description ← description
  let name ← name
  return ⟨description, name, ← directives depth⟩

/-- The interfaces that a type implements. -/
def interfaces : Parser (List String) := do
  if ← nextIsWord "implements" then
    skip
    let _ ← signIfNext .ampersand
    separated .ampersand name
  else return []

/-- The members of a union behind an equals sign. -/
def unionMembers : Parser (List String) := do
  if ← signIfNext .equals then
    let _ ← signIfNext .pipe
    separated .pipe name
  else return []

/-! ## Types -/

/-- An object or interface type after its keyword. -/
def container (depth : Nat) (kind : ContainerKind) : Parser TypeDeclaration := do
  let name ← name
  let interfaces ← interfaces
  let directives ← directives depth
  let fields ← optionalBlock depth .openBrace .closeBrace field
  return ⟨name, directives, .container kind interfaces fields⟩

/-- A type definition from its keyword on. -/
def typeDeclaration (depth : Nat) : Parser TypeDeclaration := do
  match ← peek with
  | some (.name "scalar") =>
    skip
    let name ← name
    return ⟨name, ← directives depth, .scalar⟩
  | some (.name "type") => skip; container depth .object
  | some (.name "interface") => skip; container depth .interface
  | some (.name "union") =>
    skip
    let name ← name
    let directives ← directives depth
    return ⟨name, directives, .union (← unionMembers)⟩
  | some (.name "enum") =>
    skip
    let name ← name
    let directives ← directives depth
    return ⟨name, directives, .enum (← optionalBlock depth .openBrace .closeBrace enumValue)⟩
  | some (.name "input") =>
    skip
    let name ← name
    let directives ← directives depth
    return ⟨name, directives, .input (← optionalBlock depth .openBrace .closeBrace inputField)⟩
  | _ => stuck

/-- Whether an extension with this declaration adds anything to its type. An interface is not
extended by interfaces alone. -/
def adds (declaration : TypeDeclaration) : Bool :=
  ! declaration.directives.isEmpty || match declaration.body with
    | .scalar => false
    | .container .object interfaces fields => ! interfaces.isEmpty || ! fields.isEmpty
    | .container .interface _ fields => ! fields.isEmpty
    | .union members => ! members.isEmpty
    | .enum values => ! values.isEmpty
    | .input fields => ! fields.isEmpty

/-- A type extension. One that adds nothing is refused at its keyword. -/
def extension (depth : Nat) : Parser Definition := do
  keyword "extend"
  let keywordAt ← get
  let declaration ← typeDeclaration depth
  -- Only here it is known what the extension adds.
  if adds declaration then return .extension declaration else stuckAt keywordAt

/-! ## The schema definition -/

/-- The root operations of a `schema` block, unless one is unknown or named twice. -/
def rootOperations? : List (String × String) → Option RootOperations
  | [] => some ⟨none, none, none⟩
  | (operation, type) :: rest => do
    let roots ← rootOperations? rest
    -- From the back: an operation that the rest names already is named twice.
    match operation, roots with
    | "query", ⟨none, m, s⟩ => some ⟨some type, m, s⟩
    | "mutation", ⟨q, none, s⟩ => some ⟨q, some type, s⟩
    | "subscription", ⟨q, m, none⟩ => some ⟨q, m, some type⟩
    | _, _ => none

/-- A `schema` definition. One with a wrong block is refused at its keyword. -/
def schemaDefinition (depth : Nat) : Parser Definition := do
  let keywordAt ← get
  keyword "schema"
  let directives ← directives depth
  let operations ← nested depth fun _ => bracketed .openBrace .closeBrace do
    let operation ← name
    sign .colon
    return (operation, ← name)
  match rootOperations? operations with
  | some roots => return .schema directives roots
  | none => stuckAt keywordAt

/-! ## Directive definitions -/

/-- The places a directive may be applied at. -/
def directiveLocations : List String :=
  ["QUERY", "MUTATION", "SUBSCRIPTION", "FIELD", "FRAGMENT_DEFINITION", "FRAGMENT_SPREAD",
    "INLINE_FRAGMENT", "VARIABLE_DEFINITION", "SCHEMA", "SCALAR", "OBJECT", "FIELD_DEFINITION",
    "ARGUMENT_DEFINITION", "INTERFACE", "UNION", "ENUM", "ENUM_VALUE", "INPUT_OBJECT",
    "INPUT_FIELD_DEFINITION"]

/-- A place a directive may be applied at. -/
def directiveLocation : Parser String := fun
  | .name text :: ts =>
    if directiveLocations.contains text then .ok (text, ts) else .error (.name text :: ts)
  | ts => .error ts

/-- The locations of a directive definition after `on`: none unless a bar or a name comes next. -/
def locations : Parser (List String) := do
  let bar ← signIfNext .pipe
  match ← peek with
  | some (.name _) => separated .pipe directiveLocation
  | _ => if bar then stuck else return []

/-- A directive definition from its keyword on. -/
def directiveDefinition (depth : Nat) (description : Option String) :
    Parser DirectiveDefinition := do
  keyword "directive"
  sign .at
  let name ← name
  let arguments ← argumentDefinitions depth
  let repeatable ← nextIsWord "repeatable"
  if repeatable then skip
  keyword "on"
  return ⟨description, name, arguments, repeatable, ← locations⟩

/-! ## Documents -/

/-- A type or directive definition with its description. -/
def describedDefinition (depth : Nat) : Parser Definition := do
  let description ← description
  if ← nextIsWord "directive" then
    return .directive (← directiveDefinition depth description)
  else return .type description (← typeDeclaration depth)

def definition (depth : Nat) : Parser Definition := do
  if ← nextIsWord "schema" then schemaDefinition depth
  else if ← nextIsWord "extend" then extension depth
  else describedDefinition depth

/-- Definitions up to the end of the tokens; there are at most `fuel` of them. -/
def definitions (depth : Nat) : Nat → Parser (List Definition)
  | 0 => pure []
  | fuel + 1 => do
    match ← peek with
    | none => return []
    | some _ => return (← definition depth) :: (← definitions depth fuel)

/-- A document: one or more definitions. -/
def document : Parser Document := do
  let first ← definition nestingLimit
  return ⟨first :: (← definitions nestingLimit (← remaining))⟩

end Supergraph.Schema

namespace Supergraph

/-- Reads a schema document. The error is the place of the first token that does not fit. -/
def Document.parse (text : String) : Except Position Document := Schema.document.runOn text

end Supergraph
