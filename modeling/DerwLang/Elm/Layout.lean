/-
**Elm text.**

A module is written as Elm source. Elm has other names for the built-in types and other precedences; it has no
`any`, so a definition whose type mentions it goes without an annotation; tags without fields are used bare; and
the result of a `let` stands at the column of its `in`.
-/

import DerwLang.Elm.FormatString
import DerwLang.Syntax.Import
import DerwLang.Syntax.Module
import DerwLang.Text.PathName

namespace DerwLang.Elm

/-! ## Types -/

/-- The Elm name of a type. -/
def typeName (name : String) : String :=
  match name with
  | "string" => "String"
  | "number" => "Float"
  | "boolean" => "Bool"
  | "void" => "()"
  | other => other

/-- A type. -/
def typeText (type : Ty) : String :=
  type.write typeName

mutual

/-- The type is `any` or has it somewhere inside. -/
def mentionsAny : Ty → Bool
  | .variable _ => false
  | .named name arguments => (Ty.named name arguments).isAny || someMentionsAny arguments
  | .function parts => someMentionsAny parts

/-- One of the types is `any` or has it somewhere inside. -/
def someMentionsAny : List Ty → Bool
  | [] => false
  | type :: rest => mentionsAny type || someMentionsAny rest

end

/-- The line that states the type of a definition, and its line end. -/
def signature (name : String) (type : Ty) : String :=
  if mentionsAny type then "" else name ++ " : " ++ typeText type ++ "\n"

/-! ## Operators -/

/-- How an operator is written. -/
def symbol : BinaryOperator → String
  | .notEqual => "/="
  | operator => operator.symbol

/-- How tightly an operator binds. -/
def precedence : BinaryOperator → Nat
  | .pipeInto | .pipeFrom => 0
  | .or => 2
  | .and => 3
  | .equal | .notEqual | .less | .lessEqual | .greater | .greaterEqual => 4
  | .prepend => 5
  | .add | .subtract => 6
  | .multiply | .divide => 7

/-- The operand of an operator needs brackets on the given side. -/
def operandNeedsBrackets (parent : BinaryOperator) (onRight : Bool) : Expression → Bool
  | .binary child _ _ =>
    precedence child < precedence parent ||
      (precedence child == precedence parent && onRight != (parent.associativity == .right))
  | .formatString text => hasHole text
  | .conditional _ _ _ | .caseOf _ _ | .lambda _ => true
  | _ => false

/-- The text of an operand, in brackets where it needs them. -/
def operandText (parent : BinaryOperator) (onRight : Bool) (operand : Expression)
    (text : String) : String :=
  if operandNeedsBrackets parent onRight operand then Text.parenthesised text else text

/-! ## Tags -/

/-- The tags that are declared without fields, and are used bare. -/
abbrev BareTags := List String

/-- The bare tags that a module declares. -/
def BareTags.ofModule (module : Module) : BareTags :=
  (module.unions.flatMap UnionType.tags).filterMap fun tag =>
    if tag.fields.isEmpty then some tag.name else none

/-- The tagged value is a bare tag. -/
def isBare (bareTags : BareTags) (tag : String) (literal : RecordLiteral) : Bool :=
  literal.isEmpty && bareTags.contains tag

/-- The expression is a value, a single token in a reference to another module. -/
def isValue : Expression → Bool
  | .value _ => true
  | _ => false

/-- The expression stands as an argument without brackets. -/
def isAtomic (bareTags : BareTags) : Expression → Bool
  | .value text => !Text.startsWith text "-"
  | .string _ | .list _ | .record _ => true
  | .formatString text => !hasHole text
  | .reference _ value => isValue value
  | .construct tag literal => isBare bareTags tag literal
  | _ => false

/-- The text of an argument, in brackets unless it is atomic. -/
def argumentText (bareTags : BareTags) (argument : Expression) (text : String) : String :=
  if isAtomic bareTags argument then text else Text.parenthesised text

/-! ## Patterns -/

/-- A tag with its fields. -/
def tagPattern (bareTags : BareTags) (pattern : TagPattern) : String :=
  if !pattern.fields.isEmpty then
    pattern.tag ++ " " ++ Text.braced (Text.commaSeparated pattern.fields)
  else if bareTags.contains pattern.tag then pattern.tag
  else pattern.tag ++ " _"

/-- One part of a list pattern. -/
def listPart (bareTags : BareTags) : ListPart → String
  | .emptyList => "[]"
  | .string text => Text.quoted text
  | .formatString text => Text.quoted text
  | .name name => name
  | .tag pattern =>
    let text := tagPattern bareTags pattern
    if Text.hasChar text ' ' then Text.parenthesised text else text

/-- A pattern. -/
def pattern (bareTags : BareTags) : Pattern → String
  | .tag pattern => tagPattern bareTags pattern
  | .string text => Text.quoted text
  | .formatString text => Text.quoted text
  | .emptyList => "[]"
  | .list parts => String.intercalate " :: " (parts.map (listPart bareTags))
  | .otherwise => "_"

/-! ## Declarations without expressions -/

/-- One imported module. -/
def importLine (imported : ImportedModule) : String :=
  let name := match imported.origin with
    | .library => imported.name
    | .path => Text.nameFromPath imported.name
  "import " ++ name ++ imported.aliasClause ++ imported.exposingClause

/-- A name and its type. -/
def typedField (field : TypedField) : String :=
  field.name ++ " : " ++ typeText field.type

/-- A tag of a union type. -/
def tag (tag : Tag) : String :=
  if tag.fields.isEmpty then tag.name
  else tag.name ++ " " ++ Text.braced (Text.commaSeparated (tag.fields.map typedField))

/-- A union type, a tag to a line. -/
def unionType (declared : UnionType) : String :=
  "type " ++ typeText declared.type ++ "\n" ++ Text.indentation ++ "= " ++
    String.intercalate ("\n" ++ Text.indentation ++ "| ") (declared.tags.map tag)

/-- An alias, a property to a line. -/
def typeAlias (declared : TypeAlias) : String :=
  let head := "type alias " ++ typeText declared.type ++ " =\n" ++ Text.indentation
  if declared.properties.isEmpty then head ++ "\x7b\x7d"
  else
    head ++ "\x7b " ++
      String.intercalate ("\n" ++ Text.indentation ++ ", ") (declared.properties.map typedField) ++
      "\n" ++ Text.indentation ++ "\x7d"

/-- How an argument of a function is written. -/
def parameter : Parameter → String
  | .named name _ => name
  | .anonymous _ _ => "_"

/-! ## Expressions and definitions -/

/-- An expression after its local definitions. -/
def bodyText (locals : List String) (result : String) : String :=
  match locals with
  | [] => result
  | locals => "let\n" ++ Text.indent (String.intercalate "\n\n" locals) ++ "\nin\n" ++ result

/-- A number, a boolean or a name. -/
def valueText (text : String) : String :=
  match text with
  | "true" => "True"
  | "false" => "False"
  | other => other

/-- A lambda. -/
def lambdaText (parameters : List String) (body : String) : String :=
  "\\" ++ String.intercalate " " parameters ++ " -> " ++ body

/-- A record, perhaps one that updates a base. -/
def recordText (base : Option String) (fields : List String) : String :=
  match base, fields with
  | none, [] => "\x7b\x7d"
  | some base, [] => base
  | none, fields => Text.braced (Text.commaSeparated fields)
  | some base, fields => Text.braced (base ++ " | " ++ Text.commaSeparated fields)

mutual

/-- The text of an expression. Its further lines are indented relative to its first. -/
def expression (bareTags : BareTags) : Expression → String
  | .value text => valueText text
  | .string text => Text.quoted text
  | .formatString text => formatString text
  | .list [] => "[]"
  | .list (item :: items) => "[ " ++ Text.commaSeparated (expressions bareTags (item :: items)) ++ " ]"
  | .range first last => "List.range " ++ first ++ " " ++ last
  | .record literal => recordLiteral bareTags literal
  | .conditional predicate whenTrue whenFalse =>
    "if " ++ expression bareTags predicate ++ " then\n" ++ Text.indent (body bareTags whenTrue) ++
      "\n\nelse\n" ++ Text.indent (body bareTags whenFalse)
  | .caseOf predicate cases =>
    "case " ++ expression bareTags predicate ++ " of\n" ++
      Text.indent (String.intercalate "\n\n" (branches bareTags cases))
  | .binary operator left right =>
    operandText operator false left (expression bareTags left) ++ " " ++ symbol operator ++ " " ++
      operandText operator true right (expression bareTags right)
  | .call name items => name ++ String.join ((arguments bareTags items).map (" " ++ ·))
  | .lambda ⟨parameters, body⟩ => lambdaText parameters (expression bareTags body)
  | .lambdaCall ⟨parameters, body⟩ items =>
    Text.parenthesised (lambdaText parameters (expression bareTags body)) ++
      String.join ((arguments bareTags items).map (" " ++ ·))
  | .construct tag literal =>
    let text := recordLiteral bareTags literal
    if isBare bareTags tag literal then tag else tag ++ " " ++ text
  | .reference path value => String.intercalate "." path ++ "." ++ expression bareTags value

/-- The texts of expressions. -/
def expressions (bareTags : BareTags) : List Expression → List String
  | [] => []
  | item :: rest => expression bareTags item :: expressions bareTags rest

/-- The texts of arguments. -/
def arguments (bareTags : BareTags) : List Expression → List String
  | [] => []
  | item :: rest =>
    argumentText bareTags item (expression bareTags item) :: arguments bareTags rest

/-- The text of a record literal. -/
def recordLiteral (bareTags : BareTags) : RecordLiteral → String
  | ⟨base, fields⟩ => recordText base (recordFields bareTags fields)

/-- The texts of the fields of a record literal. -/
def recordFields (bareTags : BareTags) : List Field → List String
  | [] => []
  | ⟨name, value⟩ :: rest =>
    (name ++ " = " ++ expression bareTags value) :: recordFields bareTags rest

/-- The texts of the branches of a case. -/
def branches (bareTags : BareTags) : List Branch → List String
  | [] => []
  | ⟨shape, result⟩ :: rest =>
    (pattern bareTags shape ++ " ->\n" ++ Text.indent (body bareTags result)) ::
      branches bareTags rest

/-- The text of an expression with the definitions local to it. -/
def body (bareTags : BareTags) : Body → String
  | ⟨locals, result⟩ => bodyText (blocks bareTags locals) (expression bareTags result)

/-- The text of a declaration; export lists are part of the module's head. -/
def block (bareTags : BareTags) : Block → String
  | .imports modules => Text.unlines (modules.map importLine)
  | .exports _ => ""
  | .union declared => unionType declared
  | .alias declared => typeAlias declared
  | .function ⟨name, returnType, parameters, result⟩ =>
    signature name (.function (parameters.map Parameter.type ++ [returnType])) ++ name ++ " " ++
      String.intercalate " " (parameters.map parameter) ++ " =\n" ++
      Text.indent (body bareTags result)
  | .constant ⟨name, type, value⟩ =>
    signature name type ++ name ++ " =\n" ++ Text.indent (body bareTags value)
  | .comment text => text
  | .multilineComment text => text

/-- The texts of declarations. -/
def blocks (bareTags : BareTags) : List Block → List String
  | [] => []
  | declaration :: rest => block bareTags declaration :: blocks bareTags rest

end

/-! ## Modules -/

/-- The names that a module exposes, its tests last. -/
def exposedNames (module : Module) : List String :=
  module.body.flatMap (fun
    | .exports names => names
    | _ => []) ++ module.testExports?.getD []

/-- The first line of a module. A module that exposes nothing by name exposes all. -/
def head (module : Module) : String :=
  let names := exposedNames module
  "module " ++ module.name ++ " exposing " ++
    Text.parenthesised (if names.isEmpty then ".." else Text.commaSeparated names)

/-- The text of a module. -/
def module (module : Module) : String :=
  let sections := blocks (.ofModule module) module.body
  String.intercalate "\n\n" (head module :: sections.filter fun text => !text.isEmpty)

end DerwLang.Elm
