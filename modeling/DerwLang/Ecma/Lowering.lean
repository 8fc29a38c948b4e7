/-
**From expressions to terms and statements.**

An expression is lowered to a term or to statements that end in its value (`Lowered`), and either can be made of
the other: a term is returned, statements are run where a term is needed. Conditionals and cases at the end of a
body become `if` and `switch`; elsewhere a conditional without local definitions is a term. A case looks at its
value once, under a name of its own.
-/

import DerwLang.Ecma.Layout
import DerwLang.Ecma.ListPattern
import DerwLang.Ecma.TempNames
import DerwLang.Ecma.Type
import DerwLang.Syntax.Module
import DerwLang.Text.PathName

namespace DerwLang.Ecma

/-! ## Declarations without expressions -/

/-- The name by which an imported module is known as a whole. -/
def importName (imported : ImportedModule) : String :=
  match imported.alias?, imported.origin with
  | some name, _ => name
  | none, .path => Text.nameFromPath imported.name
  | none, .library => imported.name

/-- The statements that import one module. -/
def importText (imported : ImportedModule) : String :=
  let source := Text.quoted imported.name
  let everything := "import * as " ++ importName imported ++ " from " ++ source ++ ";"
  let exposing := "import " ++ Text.braced (Text.commaSeparated imported.exposing) ++ " from " ++ source ++ ";"
  if imported.exposing.isEmpty then everything
  else if imported.alias?.isSome then everything ++ "\n" ++ exposing
  else exposing

/-- The statements that export some names. -/
def exportText (names : List String) : String :=
  Text.unlines (names.map fun name => "export " ++ Text.braced name ++ ";")

/-- A name and its type. -/
def typedField (field : TypedField) : String :=
  field.name ++ ": " ++ declared field.type

/-- The name of a tag's type, generic over the types of its fields that are not built in. -/
def tagTypeName (tag : Tag) : String :=
  let types := tag.fields.map TypedField.type
  declared (.named tag.name (types.filter fun type => !type.name?.any Ty.isBuiltinName))

/-- The body of the function that makes a tagged record. -/
def tagBody (tag : Tag) : String :=
  "    return \x7b\n        kind: " ++ Text.quoted tag.name ++ ",\n        ...args,\n    \x7d;\n\x7d"

/-- The type of a tag, if types are stated, and the function that makes its values. -/
def tagText (dialect : Dialect) (tag : Tag) : String :=
  match dialect with
  | .javaScript => "function " ++ tag.name ++ "(args) \x7b\n" ++ tagBody tag
  | .typeScript =>
    let name := tagTypeName tag
    let fields := tag.fields.map typedField
    let argument := if fields.isEmpty then "\x7b\x7d" else Text.braced (Text.commaSeparated fields)
    "type " ++ name ++ " = \x7b\n" ++ Text.indentation ++ "kind: " ++ Text.quoted tag.name ++ ";" ++
      String.join (fields.map fun field => "\n" ++ Text.indentation ++ field ++ ";") ++ "\n\x7d;\n\n" ++
      "function " ++ name ++ "(args: " ++ argument ++ "): " ++ name ++ " \x7b\n" ++ tagBody tag

/-- The tags of a union and, if types are stated, its type. -/
def unionText (dialect : Dialect) (union : UnionType) : String :=
  let tags := union.tags.map (tagText dialect)
  let type :=
    if dialect.typed then
      ["type " ++ declared union.type ++ " = " ++
        String.intercalate " | " (union.tags.map tagTypeName) ++ ";"]
    else []
  String.intercalate "\n\n" (tags ++ type)

/-- The type of an alias, if types are stated, and the function that makes its values. -/
def aliasText (dialect : Dialect) (named : TypeAlias) : String :=
  let body := "    return \x7b\n        ...args,\n    \x7d;\n\x7d"
  let name := declared named.type
  match dialect with
  | .javaScript => "function " ++ name ++ "(args) \x7b\n" ++ body
  | .typeScript =>
    let fields := named.properties.map typedField
    let argument := if fields.isEmpty then "\x7b \x7d" else Text.braced (Text.commaSeparated fields)
    "type " ++ name ++ " = \x7b" ++
      String.join (fields.map fun field => "\n" ++ Text.indentation ++ field ++ ";") ++ "\n\x7d\n\n" ++
      "function " ++ name ++ "(args: " ++ argument ++ "): " ++ name ++ " \x7b\n" ++ body

/-- A name with its type, if types are stated. -/
def binder (dialect : Dialect) (name : String) (type : Ty) : String :=
  if dialect.typed then name ++ ": " ++ annotated type else name

/-- An argument of a function. -/
def parameter (dialect : Dialect) : Parameter → String
  | .named name type => binder dialect name type
  | .anonymous index type => binder dialect ("_" ++ toString index) type

/-- The head of a function with a name. -/
def definitionHead (dialect : Dialect) (name : String) (parameters : List Parameter)
    (returnType : Ty) : String :=
  let arguments := Text.parenthesised (Text.commaSeparated (parameters.map (parameter dialect)))
  if dialect.typed then
    let types := parameters.map Parameter.type ++ [returnType]
    "function " ++ name ++ typeArguments (typeParameters types) ++ arguments ++ ": " ++ annotated returnType
  else "function " ++ name ++ arguments

/-! ## Cases -/

/-- The pattern is a text. -/
def isTextPattern : Pattern → Bool
  | .string _ | .formatString _ => true
  | _ => false

/-- The pattern is a list. -/
def isListPattern : Pattern → Bool
  | .emptyList | .list _ => true
  | _ => false

/-- What the switch of a case compares: the value itself for texts, its length for lists, and else its tag. -/
def subjectOf (name : String) (patterns : List Pattern) : Subject :=
  if patterns.any isTextPattern then .value name
  else if patterns.any isListPattern then .lengthOf name
  else .kindOf name

/-- The case of the switch for one branch. Branches for lists test the list anew, since those before them fall
through when they do not match. -/
def switchCase (name : String) (pattern : Pattern) (body : List Statement) : SwitchCase :=
  match pattern with
  | .tag pattern => ⟨.quoted pattern.tag, fieldBindings pattern name ++ body⟩
  | .string text => ⟨.quoted text, body⟩
  | .formatString text => ⟨.template text, body⟩
  | .emptyList => ⟨.zero, [.guarded (.lengthIs name 0) body]⟩
  | .list parts => ⟨.lengthOf name, listPattern name parts body⟩
  | .otherwise => ⟨.otherwise, body⟩

/-- The statements of a case from its value, the name of that, and its branches. -/
def caseStatements (name : String) (value : Term) (branches : List (Pattern × List Statement)) :
    List Statement :=
  [.temporary name value,
    .switch (subjectOf name (branches.map Prod.fst))
      (branches.map fun branch => switchCase name branch.1 branch.2)]

/-! ## Lowering -/

/-- A term, or statements that end in its value. -/
inductive Lowered
  | term (value : Term)
  | statements (body : List Statement)

/-- The term; statements are run in its place. -/
def Lowered.toTerm : Lowered → Term
  | .term value => value
  | .statements body => .immediate body

/-- The statements; a term is returned. -/
def Lowered.toStatements : Lowered → List Statement
  | .term value => [.returning value]
  | .statements body => body

/-- Lowering gives names to the values of cases. -/
abbrev Lowering := StateM TempNames

/-- The name for the value of a case. -/
def nameOfValue (dialect : Dialect) (value : Term) : Lowering String :=
  modifyGet (TempNames.nameFor (value.text dialect))

/-- The term of a binary operation. -/
def operationTerm (operator : BinaryOperator) (left right : Term) : Term :=
  match operator with
  | .prepend => .prepend left right
  | operator => .operation operator left right

mutual

/-- The lowered expression; at the end of a body a conditional becomes statements. -/
def lower (dialect : Dialect) (atEnd : Bool) : Expression → Lowering Lowered
  | .value text => return .term (.verbatim text)
  | .string text => return .term (.quoted text)
  | .formatString text => return .term (.template text)
  | .list items => return .term (.array (← lowerEach dialect items))
  | .range first last => return .term (.span first last)
  | .record ⟨base, fields⟩ => return .term (.record base (← lowerFields dialect fields))
  | .conditional predicate ⟨yesLocals, yes⟩ ⟨noLocals, no⟩ => do
    let test ← lower dialect false predicate
    if atEnd || !yesLocals.isEmpty || !noLocals.isEmpty then
      let yesLocals ← lowerBlocks dialect yesLocals
      let yes ← lower dialect true yes
      let noLocals ← lowerBlocks dialect noLocals
      let no ← lower dialect true no
      return .statements
        [.choose test.toTerm (yesLocals ++ yes.toStatements) (noLocals ++ no.toStatements)]
    else
      let yes ← lower dialect false yes
      let no ← lower dialect false no
      return .term (.conditional test.toTerm yes.toTerm no.toTerm)
  | .caseOf predicate branches => do
    let value := (← lower dialect false predicate).toTerm
    let name ← nameOfValue dialect value
    let branches ← lowerBranches dialect branches
    return .statements (caseStatements name value branches)
  | .binary .pipeInto argument function => do
    let function ← lower dialect false function
    let argument ← lower dialect false argument
    return .term (.application function.toTerm argument.toTerm)
  | .binary operator left right => do
    let left ← lower dialect false left
    let right ← lower dialect false right
    if operator == .pipeFrom then return .term (.application left.toTerm right.toTerm)
    else return .term (operationTerm operator left.toTerm right.toTerm)
  | .call name arguments => return .term (.call name (← lowerEach dialect arguments))
  | .lambda ⟨parameters, body⟩ => do
    let body ← lower dialect true body
    return .term (.function parameters body.toStatements)
  | .lambdaCall ⟨parameters, body⟩ arguments => do
    let arguments ← lowerEach dialect arguments
    let body ← lower dialect true body
    return .term (.functionCall parameters body.toStatements arguments)
  | .construct tag ⟨base, fields⟩ => return .term (.construct tag base (← lowerFields dialect fields))
  | .reference path value => return .term (.member path (← lower dialect false value).toTerm)

/-- The terms of expressions. -/
def lowerEach (dialect : Dialect) : List Expression → Lowering (List Term)
  | [] => return []
  | item :: rest => do
    let first ← lower dialect false item
    let others ← lowerEach dialect rest
    return first.toTerm :: others

/-- The fields of a record. -/
def lowerFields (dialect : Dialect) : List Field → Lowering (List TermField)
  | [] => return []
  | ⟨name, value⟩ :: rest => do
    let first ← lower dialect false value
    let others ← lowerFields dialect rest
    return ⟨name, first.toTerm⟩ :: others

/-- The patterns and bodies of the branches of a case. -/
def lowerBranches (dialect : Dialect) : List Branch → Lowering (List (Pattern × List Statement))
  | [] => return []
  | ⟨pattern, ⟨locals, result⟩⟩ :: rest => do
    let locals ← lowerBlocks dialect locals
    let result ← lower dialect true result
    let others ← lowerBranches dialect rest
    return (pattern, locals ++ result.toStatements) :: others

/-- The declaration that a block makes. -/
def lowerBlock (dialect : Dialect) : Block → Lowering Declaration
  | .imports modules => return .verbatim (Text.unlines (modules.map importText))
  | .exports names => return .verbatim (exportText names)
  | .union declared => return .verbatim (unionText dialect declared)
  | .alias declared => return .verbatim (aliasText dialect declared)
  | .function ⟨name, returnType, parameters, ⟨locals, result⟩⟩ => do
    let locals ← lowerBlocks dialect locals
    let result ← lower dialect true result
    return .function (definitionHead dialect name parameters returnType)
      (locals ++ result.toStatements)
  | .constant ⟨name, type, ⟨locals, result⟩⟩ => do
    if locals.isEmpty then
      let value ← lower dialect false result
      return .constant (binder dialect name type) value.toTerm
    else
      let locals ← lowerBlocks dialect locals
      let result ← lower dialect true result
      return .constant (binder dialect name type) (.immediate (locals ++ result.toStatements))
  | .comment _ => return .verbatim ""
  | .multilineComment _ => return .verbatim ""

/-- The statements that declare the local definitions of a body. -/
def lowerBlocks (dialect : Dialect) : List Block → Lowering (List Statement)
  | [] => return []
  | block :: rest => do
    let first ← lowerBlock dialect block
    let others ← lowerBlocks dialect rest
    return .declaring first :: others

end

end DerwLang.Ecma
