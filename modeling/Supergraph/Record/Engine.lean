import Supergraph.Classification
import Supergraph.Json.Codec
import Supergraph.Rename
import Supergraph.ScalarReplacement
import Supergraph.Setting

/-!
# Nodes, configurations and renames as JSON

Each record lists its members in the order they are written in.
-/

namespace Supergraph

open Json Members Codec

/-! ## Nodes -/

/-- A type and some of its fields. Repeated fields are kept. -/
def TypeFields.codec : Codec TypeFields :=
  ((required "typeName" text).and (required "fieldNames" text.list)).imap
    (fun (typeName, fieldNames) => ⟨typeName, fieldNames⟩)
    (fun node => (node.typeName, node.fieldNames)) (fun _ => rfl) |>.record

def Coordinate.codec : Codec Coordinate :=
  ((required "typeName" text).and (required "fieldName" text)).imap
    (fun (typeName, fieldName) => ⟨typeName, fieldName⟩)
    (fun field => (field.typeName, field.fieldName)) (fun _ => rfl) |>.record

/-! ## Configurations -/

def ArgumentSource.word : ArgumentSource → String
  | .fieldArgument => "FIELD_ARGUMENT"
  | .objectField => "OBJECT_FIELD"

def ArgumentSource.codec : Codec ArgumentSource :=
  .choice word [.fieldArgument, .objectField] (by rintro ⟨⟩ <;> decide)

def ArgumentRendering.word : ArgumentRendering → String
  | .default => "RENDER_ARGUMENT_DEFAULT"
  | .graphqlValue => "RENDER_ARGUMENT_AS_GRAPHQL_VALUE"
  | .arrayCsv => "RENDER_ARGUMENT_AS_ARRAY_CSV"

def ArgumentRendering.codec : Codec ArgumentRendering :=
  .choice word [.default, .graphqlValue, .arrayCsv] (by rintro ⟨⟩ <;> decide)

def ArgumentConfig.codec : Codec ArgumentConfig :=
  ((required "name" text).and <| (required "sourceType" ArgumentSource.codec).and <|
    (required "sourcePath" text.list).and <|
    (required "renderConfiguration" ArgumentRendering.codec).and <|
    required "renameTypeTo" text).imap
    (fun (name, source, path, rendering, type) => ⟨name, source, path, rendering, type⟩)
    (fun a => (a.name, a.source, a.sourcePath, a.rendering, a.renameTypeTo))
    (fun _ => rfl) |>.record

def FieldConfig.codec : Codec FieldConfig :=
  ((required "typeName" text).and <| (required "fieldName" text).and <|
    (required "disableDefaultFieldMapping" bool).and <| (required "path" text.list).and <|
    (required "argumentsConfiguration" ArgumentConfig.codec.list).and <|
    (required "requiresFields" text.list).and <| required "unescapeResponseJson" bool).imap
    (fun (typeName, fieldName, disable, path, arguments, requires, unescape) =>
      ⟨typeName, fieldName, disable, path, arguments, requires, unescape⟩)
    (fun c => (c.typeName, c.fieldName, c.disableDefaultMapping, c.path, c.arguments, c.requires,
      c.unescapeJson)) (fun _ => rfl) |>.record

def TypeMapping.codec : Codec TypeMapping :=
  ((required "typeName" text).and (required "renameTo" text)).imap
    (fun (typeName, renameTo) => ⟨typeName, renameTo⟩)
    (fun m => (m.typeName, m.renameTo)) (fun _ => rfl) |>.record

def DirectiveMapping.codec : Codec DirectiveMapping :=
  ((required "directiveName" text).and (required "renameTo" text)).imap
    (fun (directiveName, renameTo) => ⟨directiveName, renameTo⟩)
    (fun m => (m.directiveName, m.renameTo)) (fun _ => rfl) |>.record

def ArgumentRetyping.codec : Codec ArgumentRetyping :=
  ((required "typeName" text).and <| (required "fieldName" text).and <|
    (required "argName" text).and <| required "renameTypeTo" text).imap
    (fun (typeName, fieldName, argumentName, type) => ⟨typeName, fieldName, argumentName, type⟩)
    (fun r => (r.typeName, r.fieldName, r.argumentName, r.renameTypeTo)) (fun _ => rfl) |>.record

def Classification.codec : Codec Classification :=
  ((required "RootNodes" TypeFields.codec.list).and <|
    (required "ChildNodes" TypeFields.codec.list).and <|
    (required "Fields" FieldConfig.codec.list).and <|
    required "Types" TypeMapping.codec.list).imap
    (fun (rootNodes, childNodes, fields, types) => ⟨rootNodes, childNodes, fields, types⟩)
    (fun c => (c.rootNodes, c.childNodes, c.fields, c.types)) (fun _ => rfl) |>.record

/-! ## Renames and replacements -/

def TypeRename.codec : Codec TypeRename :=
  ((required "from" text).and (required "to" text)).imap
    (fun (source, target) => ⟨source, target⟩)
    (fun r => (r.source, r.target)) (fun _ => rfl) |>.record

def FieldRename.codec : Codec FieldRename :=
  ((required "typeName" text).and <| (required "fromFieldName" text).and <|
    required "toFieldName" text).imap
    (fun (typeName, source, target) => ⟨typeName, source, target⟩)
    (fun r => (r.typeName, r.source, r.target)) (fun _ => rfl) |>.record

def ScalarReplacement.codec : Codec ScalarReplacement :=
  ((required "entityName" text).and <| (required "fieldName" text).and <|
    (optional "inputTypeReplacement" text text_neverNull).and <|
    required "responseTypeReplacement" text).imap
    (fun (entityName, fieldName, input, response) => ⟨entityName, fieldName, input, response⟩)
    (fun r => (r.entityName, r.fieldName, r.inputType, r.responseType)) (fun _ => rfl) |>.record

/-! ## Settings -/

/-- The members of a setting that names an environment variable. -/
def Setting.environmentMembers : Members (String × Option String) :=
  (required "env" text).and (optional "default" text text_neverNull)

/-- A setting: a text, or a record that names an environment variable. -/
def Setting.codec : Codec Setting :=
  strict {
    encode
      | .literal text => .string text
      | .environment name default => environmentMembers.objectRecord.encode (name, default)
    decode
      | .string text => some (.literal text)
      | j => (environmentMembers.objectRecord.decode j).map fun (name, default) =>
        .environment name default
    decode_encode s := by
      cases s with
      | literal text => rfl
      | environment name default =>
        have back := environmentMembers.objectRecord.decode_encode (name, default)
        exact congrArg (Option.map _) back
    isReadable_encode s := by
      cases s with
      | literal text => rfl
      | environment name default =>
        exact environmentMembers.objectRecord.isReadable_encode (name, default) }

theorem Setting.codec_neverNull : Setting.codec.NeverNull := by
  rintro ⟨⟩ <;> nofun

def EngineVariableKind.word : EngineVariableKind → String
  | .static => "STATIC_CONFIGURATION_VARIABLE"
  | .environment => "ENV_CONFIGURATION_VARIABLE"
  | .placeholder => "PLACEHOLDER_CONFIGURATION_VARIABLE"

def EngineVariableKind.codec : Codec EngineVariableKind :=
  .choice word [.static, .environment, .placeholder] (by rintro ⟨⟩ <;> decide)

def EngineVariable.codec : Codec EngineVariable :=
  ((required "kind" EngineVariableKind.codec).and <|
    (required "staticVariableContent" text).and <|
    (required "environmentVariableName" text).and <|
    (required "environmentVariableDefaultValue" text).and <|
    required "placeholderVariableName" text).imap
    (fun (kind, content, name, default, placeholder) => ⟨kind, content, name, default, placeholder⟩)
    (fun v => (v.kind, v.content, v.environmentName, v.environmentDefault, v.placeholderName))
    (fun _ => rfl) |>.record

end Supergraph
