/-
**The canonical layout of source text.**

Every expression and every declaration has one written form. Operands and arguments get brackets only where
the grammar would group them otherwise; the branches of a conditional or a case, and the body of a definition,
stand on lines of their own, one level in; consecutive imports follow line on line, and other declarations have
a blank line between them.
-/

import DerwLang.Syntax.Import
import DerwLang.Syntax.Module

namespace DerwLang.Canonical

/-! ## Brackets -/

/-- The operand of an operator needs brackets on the given side. -/
def operandNeedsBrackets (parent : BinaryOperator) (side : Associativity) : Expression → Bool
  | .binary child _ _ =>
    child.precedence < parent.precedence ||
      (child.precedence == parent.precedence && parent.associativity != side)
  | .conditional _ _ _ | .caseOf _ _ | .lambda _ => true
  | _ => false

/-- The text of an operand, in brackets where it needs them. -/
def operandText (parent : BinaryOperator) (side : Associativity) (operand : Expression)
    (text : String) : String :=
  if operandNeedsBrackets parent side operand then Text.parenthesised text else text

/-- The expression is a value, a single token in a reference to another module. -/
def isValue : Expression → Bool
  | .value _ => true
  | _ => false

/-- The expression stands as an argument without brackets. -/
def isAtomic : Expression → Bool
  | .value text => !Text.startsWith text "-"
  | .call _ arguments => arguments.isEmpty
  | .reference _ value => isValue value
  | .string _ | .formatString _ | .list _ | .range _ _ | .record _ | .construct _ _ => true
  | .conditional _ _ _ | .caseOf _ _ | .binary _ _ _ | .lambda _ | .lambdaCall _ _ => false

/-- The text of an argument, in brackets unless it is atomic. -/
def argumentText (argument : Expression) (text : String) : String :=
  if isAtomic argument then text else Text.parenthesised text

/-! ## Patterns -/

/-- A tag with its fields. -/
def tagPattern (pattern : TagPattern) : String :=
  if pattern.fields.isEmpty then pattern.tag ++ " \x7b\x7d"
  else pattern.tag ++ " " ++ Text.braced (Text.commaSeparated pattern.fields)

/-- One part of a list pattern. -/
def listPart : ListPart → String
  | .emptyList => "[]"
  | .string text => Text.quoted text
  | .formatString text => Text.backquoted text
  | .name name => name
  | .tag pattern => tagPattern pattern

/-- A pattern. -/
def pattern : Pattern → String
  | .tag pattern => tagPattern pattern
  | .string text => Text.quoted text
  | .formatString text => Text.backquoted text
  | .emptyList => "[]"
  | .list parts => String.intercalate " :: " (parts.map listPart)
  | .otherwise => "default"

/-! ## Declarations without expressions -/

/-- One imported module. -/
def importLine (imported : ImportedModule) : String :=
  let name := match imported.origin with
    | .library => imported.name
    | .path => Text.quoted imported.name
  "import " ++ name ++ imported.aliasClause ++ imported.exposingClause

/-- A name and its type. -/
def typedField (field : TypedField) : String :=
  field.name ++ ": " ++ field.type.text

/-- A tag of a union type. -/
def tag (tag : Tag) : String :=
  if tag.fields.isEmpty then tag.name
  else tag.name ++ " " ++ Text.braced (Text.commaSeparated (tag.fields.map typedField))

/-- A union type, a tag to a line. -/
def unionType (declared : UnionType) : String :=
  "type " ++ declared.type.text ++ " =\n" ++ Text.indentation ++
    String.intercalate ("\n" ++ Text.indentation ++ "| ") (declared.tags.map tag)

/-- An alias, a property to a line. -/
def typeAlias (declared : TypeAlias) : String :=
  if declared.properties.isEmpty then "type alias " ++ declared.type.text ++ " = \x7b \x7d"
  else
    "type alias " ++ declared.type.text ++ " = \x7b\n" ++
      String.intercalate ",\n"
        (declared.properties.map fun property => Text.indentation ++ typedField property) ++
      "\n\x7d"

/-- The signature of a function, and its line end. A function of which no type is known has none. -/
def functionSignature (name : String) (parameters : List Parameter) (returnType : Ty) : String :=
  let types := parameters.map Parameter.type ++ [returnType]
  if types.all Ty.isAny then "" else name ++ ": " ++ (Ty.function types).text ++ "\n"

/-- The name of a function and of those arguments that have one. -/
def functionHead (name : String) (parameters : List Parameter) : String :=
  name ++ String.join (parameters.map fun
    | .named argument _ => " " ++ argument
    | .anonymous _ _ => "")

/-- The signature of a constant, and its line end. A constant of which no type is known has none. -/
def constantSignature (name : String) (type : Ty) : String :=
  if type.isAny then "" else name ++ ": " ++ type.text ++ "\n"

/-! ## Expressions and definitions -/

/-- An expression after its local definitions. -/
def bodyText (locals : List String) (result : String) : String :=
  match locals with
  | [] => result
  | locals =>
    "let\n" ++ Text.indent (String.intercalate "\n\n" locals) ++ "\nin\n" ++ Text.indent result

/-- A lambda. -/
def lambdaText (parameters : List String) (body : String) : String :=
  "\\" ++ String.intercalate " " parameters ++ " -> " ++ body

mutual

/-- The text of an expression. Its further lines are indented relative to its first. -/
def expression : Expression → String
  | .value text => text
  | .string text => Text.quoted text
  | .formatString text => Text.backquoted text
  | .list [] => "[ ]"
  | .list (item :: items) => "[ " ++ Text.commaSeparated (expressions (item :: items)) ++ " ]"
  | .range first last => "[ " ++ first ++ ".." ++ last ++ " ]"
  | .record literal => recordLiteral literal
  | .conditional predicate whenTrue whenFalse =>
    "if " ++ expression predicate ++ " then\n" ++ Text.indent (body whenTrue) ++ "\nelse\n" ++
      Text.indent (body whenFalse)
  | .caseOf predicate cases =>
    "case " ++ expression predicate ++ " of\n" ++
      Text.indent (String.intercalate "\n\n" (branches cases))
  | .binary operator left right =>
    operandText operator .left left (expression left) ++ " " ++ operator.symbol ++ " " ++
      operandText operator .right right (expression right)
  | .call name items => name ++ String.join ((arguments items).map (" " ++ ·))
  | .lambda ⟨parameters, body⟩ => lambdaText parameters (expression body)
  | .lambdaCall ⟨parameters, body⟩ items =>
    (arguments items).foldl (fun text argument => argument ++ " |> " ++ Text.parenthesised text)
      (lambdaText parameters (expression body))
  | .construct tag literal => tag ++ " " ++ recordLiteral literal
  | .reference path value => String.intercalate "." path ++ "." ++ expression value

/-- The texts of expressions. -/
def expressions : List Expression → List String
  | [] => []
  | item :: rest => expression item :: expressions rest

/-- The texts of arguments. -/
def arguments : List Expression → List String
  | [] => []
  | item :: rest => argumentText item (expression item) :: arguments rest

/-- The text of a record literal. -/
def recordLiteral : RecordLiteral → String
  | ⟨base, fields⟩ =>
    match base.toList ++ recordFields fields with
    | [] => "\x7b \x7d"
    | entries => Text.braced (Text.commaSeparated entries)

/-- The texts of the fields of a record literal. -/
def recordFields : List Field → List String
  | [] => []
  | ⟨name, value⟩ :: rest => (name ++ ": " ++ expression value) :: recordFields rest

/-- The texts of the branches of a case. -/
def branches : List Branch → List String
  | [] => []
  | ⟨shape, result⟩ :: rest =>
    (pattern shape ++ " ->\n" ++ Text.indent (body result)) :: branches rest

/-- The text of an expression with the definitions local to it. -/
def body : Body → String
  | ⟨locals, result⟩ => bodyText (blocks locals) (expression result)

/-- The text of a declaration. -/
def block : Block → String
  | .imports modules => Text.unlines (modules.map importLine)
  | .exports names => "exposing " ++ Text.parenthesised (Text.commaSeparated names)
  | .union declared => unionType declared
  | .alias declared => typeAlias declared
  | .function ⟨name, returnType, parameters, result⟩ =>
    functionSignature name parameters returnType ++ functionHead name parameters ++ " =\n" ++
      Text.indent (body result)
  | .constant ⟨name, type, value⟩ =>
    constantSignature name type ++ name ++ " =\n" ++ Text.indent (body value)
  | .comment text => text
  | .multilineComment text => text

/-- The texts of declarations. -/
def blocks : List Block → List String
  | [] => []
  | declaration :: rest => block declaration :: blocks rest

end

/-! ## Modules -/

/-- The declaration is an import. -/
def isImport : Block → Bool
  | .imports _ => true
  | _ => false

/-- What stands between two declarations. -/
def separator (previous next : Block) : String :=
  if isImport previous && isImport next then "\n" else "\n\n"

/-- The texts of declarations after an earlier one. -/
def following : Block → List Block → String
  | _, [] => ""
  | previous, next :: rest => separator previous next ++ block next ++ following next rest

/-- The text of declarations one below the other. -/
def declarations : List Block → String
  | [] => ""
  | first :: rest => block first ++ following first rest

/-- The text of a module. -/
def module (module : Module) : String :=
  declarations module.body

end DerwLang.Canonical
