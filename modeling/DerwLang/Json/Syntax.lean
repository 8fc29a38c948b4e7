/-
**The JSON form of modules.**

A declaration, an expression or a pattern is an object whose only member names its kind, or a bare string when
the kind says all. The members of an object stand in a fixed order.
-/

import DerwLang.Json.Basic
import DerwLang.Syntax.Module

namespace DerwLang

mutual

/-- The JSON form of a type. -/
def Ty.toJson : Ty → Json
  | .variable name => .tagged "Generic" (.string name)
  | .named name arguments =>
    .tagged "Fixed" (.array [.string name, .array (Ty.listToJson arguments)])
  | .function parts => .tagged "Function" (.array (Ty.listToJson parts))

/-- The JSON forms of types. -/
def Ty.listToJson : List Ty → List Json
  | [] => []
  | type :: rest => type.toJson :: Ty.listToJson rest

end

/-- The JSON form of an operator. -/
def BinaryOperator.label : BinaryOperator → String
  | .add => "Add"
  | .subtract => "Subtract"
  | .multiply => "Multiply"
  | .divide => "Divide"
  | .equal => "Equal"
  | .notEqual => "NotEqual"
  | .less => "Less"
  | .lessEqual => "LessEqual"
  | .greater => "Greater"
  | .greaterEqual => "GreaterEqual"
  | .and => "And"
  | .or => "Or"
  | .prepend => "ListPrepend"
  | .pipeInto => "LeftPipe"
  | .pipeFrom => "RightPipe"

/-- An object whose member `body` holds a text. -/
def Json.body (text : String) : Json :=
  .object [⟨"body", .string text⟩]

/-- The JSON form of a tag pattern. -/
def TagPattern.toJson (pattern : TagPattern) : Json :=
  .object [⟨"constructor", .string pattern.tag⟩, ⟨"fields", .ofTexts pattern.fields⟩]

/-- The JSON form of a part of a list pattern. -/
def ListPart.toJson : ListPart → Json
  | .emptyList => .string "EmptyList"
  | .string text => .tagged "StringValue" (.body text)
  | .formatString text => .tagged "FormatStringValue" (.body text)
  | .name text => .tagged "Value" (.body text)
  | .tag pattern => .tagged "Destructure" pattern.toJson

/-- The JSON form of a pattern. -/
def Pattern.toJson : Pattern → Json
  | .tag pattern => .tagged "Destructure" pattern.toJson
  | .string text => .tagged "StringValue" (.body text)
  | .formatString text => .tagged "FormatStringValue" (.body text)
  | .emptyList => .string "EmptyList"
  | .list parts =>
    .tagged "ListDestructure" (.object [⟨"parts", .array (parts.map ListPart.toJson)⟩])
  | .otherwise => .string "Default"

/-- The JSON form of an imported module. -/
def ImportedModule.toJson (imported : ImportedModule) : Json :=
  .object
    [⟨"name", .string imported.name⟩, ⟨"alias", .ofOption imported.alias?⟩,
      ⟨"exposing", .ofTexts imported.exposing⟩,
      ⟨"namespace", .string (match imported.origin with
        | .library => "Global"
        | .path => "Relative")⟩]

/-- The JSON form of a typed field. -/
def TypedField.toJson (field : TypedField) : Json :=
  .object [⟨"name", .string field.name⟩, ⟨"type_", field.type.toJson⟩]

/-- The JSON form of a tag. -/
def Tag.toJson (tag : Tag) : Json :=
  .object [⟨"name", .string tag.name⟩, ⟨"args", .array (tag.fields.map TypedField.toJson)⟩]

/-- The JSON form of a union type. -/
def UnionType.toJson (declared : UnionType) : Json :=
  .object [⟨"type_", declared.type.toJson⟩, ⟨"tags", .array (declared.tags.map Tag.toJson)⟩]

/-- The JSON form of an alias. -/
def TypeAlias.toJson (declared : TypeAlias) : Json :=
  .object
    [⟨"type_", declared.type.toJson⟩,
      ⟨"properties", .array (declared.properties.map TypedField.toJson)⟩]

/-- The JSON form of an argument of a function. -/
def Parameter.toJson : Parameter → Json
  | .named name type =>
    .tagged "Named" (.object [⟨"name", .string name⟩, ⟨"type_", type.toJson⟩])
  | .anonymous index type =>
    .tagged "Anonymous" (.object [⟨"index", .number index⟩, ⟨"type_", type.toJson⟩])

mutual

/-- The JSON form of an expression. -/
def Expression.toJson : Expression → Json
  | .value text => .tagged "Value" (.body text)
  | .string text => .tagged "StringValue" (.body text)
  | .formatString text => .tagged "FormatStringValue" (.body text)
  | .list items =>
    .tagged "ListValue" (.object [⟨"items", .array (Expression.listToJson items)⟩])
  | .range first last =>
    .tagged "ListRange" (.object [⟨"start", .body first⟩, ⟨"end", .body last⟩])
  | .record literal => .tagged "ObjectLiteral" literal.toJson
  | .conditional predicate ⟨yesLocals, yes⟩ ⟨noLocals, no⟩ =>
    .tagged "IfStatement" (.object
      [⟨"predicate", predicate.toJson⟩,
        ⟨"if_body", yes.toJson⟩,
        ⟨"if_let_body", .array (Block.listToJson yesLocals)⟩,
        ⟨"else_body", no.toJson⟩,
        ⟨"else_let_body", .array (Block.listToJson noLocals)⟩])
  | .caseOf predicate branches =>
    .tagged "CaseStatement" (.object
      [⟨"predicate", predicate.toJson⟩, ⟨"branches", .array (Branch.listToJson branches)⟩])
  | .binary operator left right =>
    .tagged "Binary" (.object
      [⟨"operator", .string operator.label⟩, ⟨"left", left.toJson⟩, ⟨"right", right.toJson⟩])
  | .call name arguments =>
    .tagged "FunctionCall" (.object
      [⟨"name", .string name⟩, ⟨"args", .array (Expression.listToJson arguments)⟩])
  | .lambda lambda => .tagged "Lambda" lambda.toJson
  | .lambdaCall lambda arguments =>
    .tagged "LambdaCall" (.object
      [⟨"lambda", lambda.toJson⟩, ⟨"args", .array (Expression.listToJson arguments)⟩])
  | .construct tag literal =>
    .tagged "Constructor" (.object
      [⟨"constructor", .string tag⟩, ⟨"pattern", literal.toJson⟩])
  | .reference path value =>
    .tagged "ModuleReference" (.object [⟨"path", .ofTexts path⟩, ⟨"value", value.toJson⟩])

/-- The JSON forms of expressions. -/
def Expression.listToJson : List Expression → List Json
  | [] => []
  | expression :: rest => expression.toJson :: Expression.listToJson rest

/-- The JSON form of a record literal. -/
def RecordLiteral.toJson : RecordLiteral → Json
  | ⟨base, fields⟩ =>
    .object
      [⟨"base", match base with
        | none => .null
        | some name => .body name⟩,
        ⟨"fields", .array (Field.listToJson fields)⟩]

/-- The JSON forms of fields. -/
def Field.listToJson : List Field → List Json
  | [] => []
  | ⟨name, value⟩ :: rest =>
    .object [⟨"name", .string name⟩, ⟨"value", value.toJson⟩] :: Field.listToJson rest

/-- The JSON form of a lambda. -/
def Lambda.toJson : Lambda → Json
  | ⟨parameters, body⟩ =>
    .object [⟨"args", .ofTexts parameters⟩, ⟨"body", body.toJson⟩]

/-- The JSON forms of branches. -/
def Branch.listToJson : List Branch → List Json
  | [] => []
  | ⟨pattern, ⟨locals, result⟩⟩ :: rest =>
    .object
      [⟨"pattern", pattern.toJson⟩, ⟨"body", result.toJson⟩,
        ⟨"let_body", .array (Block.listToJson locals)⟩] :: Branch.listToJson rest

/-- The JSON form of a declaration. -/
def Block.toJson : Block → Json
  | .imports modules =>
    .tagged "Import" (.object [⟨"modules", .array (modules.map ImportedModule.toJson)⟩])
  | .exports names => .tagged "Export" (.object [⟨"names", .ofTexts names⟩])
  | .union declared => .tagged "UnionType" declared.toJson
  | .alias declared => .tagged "TypeAlias" declared.toJson
  | .function ⟨name, returnType, parameters, ⟨locals, result⟩⟩ =>
    .tagged "Function" (.object
      [⟨"name", .string name⟩, ⟨"return_type", returnType.toJson⟩,
        ⟨"args", .array (parameters.map Parameter.toJson)⟩,
        ⟨"let_body", .array (Block.listToJson locals)⟩,
        ⟨"body", result.toJson⟩])
  | .constant ⟨name, type, ⟨locals, result⟩⟩ =>
    .tagged "Const" (.object
      [⟨"name", .string name⟩, ⟨"type_", type.toJson⟩,
        ⟨"let_body", .array (Block.listToJson locals)⟩,
        ⟨"value", result.toJson⟩])
  | .comment text => .tagged "Comment" (.body text)
  | .multilineComment text => .tagged "MultilineComment" (.body text)

/-- The JSON forms of declarations. -/
def Block.listToJson : List Block → List Json
  | [] => []
  | block :: rest => block.toJson :: Block.listToJson rest

end

/-- The JSON form of an error. -/
def ParseError.toJson (error : ParseError) : Json :=
  .object [⟨"message", .string error.message⟩, ⟨"line", .number error.line⟩]

/-- The JSON form of a module. -/
def Module.toJson (module : Module) : Json :=
  .object
    [⟨"name", .string module.name⟩, ⟨"body", .array (Block.listToJson module.body)⟩,
      ⟨"errors", .array (module.errors.map ParseError.toJson)⟩]

end DerwLang
