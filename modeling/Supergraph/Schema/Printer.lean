import Supergraph.Schema.Document
import Supergraph.Text.QuotedString

/-!
# Writing schema documents

One definition after the other with an empty line between them, fields and enum values on lines of
their own, indented by two. Strings that become blocks are indented deeper than the line they start
on, so every piece is written for a given indentation: zero at the top level, two inside braces.
-/

namespace Supergraph

/-- The indentation inside braces. -/
def bodyIndent : Nat := 2

def spaces (indent : Nat) : String := .ofList (.replicate indent ' ')

/-- A text as a string literal. -/
def quoted (indent : Nat) (text : String) : String := .ofList (Text.quote indent text.toList)

/-! ## Values, types and directives -/

mutual

/-- A value as it is written in a document. -/
def Value.print (indent : Nat) : Value → String
  | .variable name => "$" ++ name
  | .int n => toString n
  | .float x => .ofList x.text
  | .string text => quoted indent text
  | .boolean true => "true"
  | .boolean false => "false"
  | .null => "null"
  | .enum name => name
  | .list items => "[" ++ String.intercalate ", " (Value.printItems indent items) ++ "]"
  | .object members =>
    "\x7b" ++ String.intercalate ", " (Value.printMembers indent members) ++ "\x7d"

def Value.printItems (indent : Nat) : List Value → List String
  | [] => []
  | item :: rest => item.print indent :: Value.printItems indent rest

def Value.printMembers (indent : Nat) : List (String × Value) → List String
  | [] => []
  | (name, value) :: rest => (name ++ ": " ++ value.print indent) :: Value.printMembers indent rest

end

/-- A type reference as it is written in a document. -/
def TypeRef.print : TypeRef → String
  | .named name => name
  | .list item => "[" ++ item.print ++ "]"
  | .nonNull type => type.print ++ "!"

/-- Items in parentheses, or nothing without items. -/
def parenthesized (items : List String) : String :=
  if items.isEmpty then "" else "(" ++ String.intercalate ", " items ++ ")"

def Directive.print (indent : Nat) (directive : Directive) : String :=
  "@" ++ directive.name ++
    parenthesized (directive.arguments.map fun (name, value) => name ++ ": " ++ value.print indent)

/-- Directives, each after a space. -/
def printDirectives (indent : Nat) (directives : List Directive) : String :=
  String.join (directives.map fun directive => " " ++ directive.print indent)

/-! ## Fields -/

/-- A description in front of what it describes, on the same line. -/
def inlineDescription (indent : Nat) : Option String → String
  | some text => quoted indent text ++ " "
  | none => ""

/-- A description on a line of its own. -/
def descriptionLine (indent : Nat) : Option String → String
  | some text => spaces indent ++ quoted indent text ++ "\n"
  | none => ""

def InputField.print (indent : Nat) (field : InputField) : String :=
  inlineDescription indent field.description ++ field.name ++ ": " ++ field.type.print ++
    (match field.default with
      | some value => " = " ++ value.print indent
      | none => "") ++
    printDirectives indent field.directives

/-- A field of a container, with its description above it. -/
def Field.print (indent : Nat) (field : Field) : String :=
  descriptionLine indent field.description ++ spaces indent ++ field.name ++
    parenthesized (field.arguments.map (·.print indent)) ++ ": " ++ field.type.print ++
    printDirectives indent field.directives ++ "\n"

def EnumValue.print (indent : Nat) (value : EnumValue) : String :=
  inlineDescription indent value.description ++ value.name ++
    printDirectives indent value.directives

/-- One item on a line of its own. -/
def line (indent : Nat) (item : String) : String := spaces indent ++ item ++ "\n"

/-! ## Definitions -/

/-- Lines in braces after what they belong to. -/
def braced (lines : List String) : String := " \x7b\n" ++ String.join lines ++ "\x7d\n"

/-- Lines in braces, or just the line end without lines. -/
def optionallyBraced (lines : List String) : String :=
  if lines.isEmpty then "\n" else braced lines

/-- Names with a separator between them, after what announces them. -/
def announced (announcement separator : String) (names : List String) : String :=
  if names.isEmpty then "" else announcement ++ String.intercalate separator names

/-- A type definition or extension from its keyword on. -/
def TypeDeclaration.print (declaration : TypeDeclaration) : String :=
  let directives := printDirectives 0 declaration.directives
  match declaration.body with
  | .scalar => "scalar " ++ declaration.name ++ directives ++ "\n"
  | .container kind interfaces fields =>
    (match kind with
      | .object => "type "
      | .interface => "interface ") ++
      declaration.name ++ announced " implements " " & " interfaces ++ directives ++
      optionallyBraced (fields.map (·.print bodyIndent))
  | .union members =>
    "union " ++ declaration.name ++ directives ++ announced " = " " | " members ++ "\n"
  | .enum values =>
    "enum " ++ declaration.name ++ directives ++
      optionallyBraced (values.map fun value => line bodyIndent (value.print bodyIndent))
  | .input fields =>
    "input " ++ declaration.name ++ directives ++
      optionallyBraced (fields.map fun field => line bodyIndent (field.print bodyIndent))

/-- The line of a root operation in a `schema` block. -/
def operationLine (operation : String) : Option String → List String
  | some type => [line bodyIndent (operation ++ ": " ++ type)]
  | none => []

/-- The lines of a `schema` block. -/
def RootOperations.lines (roots : RootOperations) : List String :=
  operationLine "query" roots.query ++ operationLine "mutation" roots.mutation ++
    operationLine "subscription" roots.subscription

def DirectiveDefinition.print (definition : DirectiveDefinition) : String :=
  descriptionLine 0 definition.description ++ "directive @" ++ definition.name ++
    parenthesized (definition.arguments.map (·.print 0)) ++
    (if definition.repeatable then " repeatable" else "") ++
    announced " on " " | " definition.locations ++ "\n"

/-- A top-level definition, which ends with a line feed. -/
def Definition.print : Definition → String
  | .schema directives roots => "schema" ++ printDirectives 0 directives ++ braced roots.lines
  | .type description declaration => descriptionLine 0 description ++ declaration.print
  | .extension declaration => "extend " ++ declaration.print
  | .directive definition => definition.print

/-- A document as a text. -/
def Document.print (document : Document) : String :=
  String.intercalate "\n" (document.definitions.map Definition.print)

end Supergraph
