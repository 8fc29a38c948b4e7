/-
**Why a text does not parse.**

An error is a cause and the line to blame. Causes say what was expected and what stood there instead; the
wording of all of them is `ParseError.Cause.message`.
-/

import DerwLang.Syntax.Operator
import DerwLang.Token.TypeSegment

namespace DerwLang

/-- Where a certain kind of token is required. -/
inductive Requirement
  | afterLambdaArguments
  | betweenFields
  | afterAs
  | toOpenNames
  | afterType
  | afterTypeName (name : String)
  | asTag
  | afterAlias
  | afterAliasName (name : String)
  | toOpenFields
  | inDefinition (name : String)
deriving DecidableEq, Repr

/-- The wording of a requirement. -/
def Requirement.text : Requirement → String
  | .afterLambdaArguments => "after lambda arguments"
  | .betweenFields => "between destructured fields"
  | .afterAs => "after `as`"
  | .toOpenNames => "to open a name list"
  | .afterType => "after `type`"
  | .afterTypeName name => "after `type " ++ name ++ "`"
  | .asTag => "as a union tag name"
  | .afterAlias => "after `type alias`"
  | .afterAliasName name => "after `type alias " ++ name ++ "`"
  | .toOpenFields => "to open a field list"
  | .inDefinition name => "in the definition of `" ++ name ++ "`"

/-- What has to be over where its tokens end. -/
inductive Construct
  | expression
  | pattern
  | listPart
  | importing
  | exposing
  | unionType
  | typeAlias
deriving DecidableEq, Repr

/-- The wording of a construct. -/
def Construct.text : Construct → String
  | .expression => "expression"
  | .pattern => "pattern"
  | .listPart => "list pattern part"
  | .importing => "import"
  | .exposing => "exposing list"
  | .unionType => "union type"
  | .typeAlias => "type alias"

/-- The body of the token that stands somewhere, if there is one. -/
abbrev Found := Option String

/-- The wording of what stands somewhere. -/
def Found.text : Found → String
  | some body => "`" ++ body ++ "`"
  | none => "end of input"

namespace ParseError

/-- Why a text does not parse. -/
inductive Cause
  | required (kind : Token.Kind) (place : Requirement) (found : Found)
  | leftOver (body : String) (after : Construct)
  | unclosed (opening closing : Token.Kind)
  | unrecognised (body : String)
  | missingExpression
  | noExpression (body : String)
  | bareMinus
  | missingItem
  | rangeBound
  | noRecordField (body : String)
  | missingRecordField
  | chainedComparison (first second : BinaryOperator)
  | missingThen
  | missingElse
  | missingOf
  | missingBranch
  | missingBranchArrow (found : Found)
  | missingIn
  | missingLambdaArgument (found : Found)
  | missingPattern
  | noPattern (body : String)
  | noPatternField (tag body : String)
  | unclosedPattern (tag : String)
  | earlyEmptyList
  | missingListPart
  | noListPart (body : String)
  | type (error : TypeSegment.Error)
  | missingTypeName
  | noTypeName (body : String)
  | unclosedTypeArgument
  | noTypeArgument (body head : String)
  | missingDeclaration
  | noDeclaration (body : String)
  | missingLocal
  | noLocal
  | noModuleName (found : Found)
  | noExposedName (body : String)
  | unclosedNames
  | noTypedField
  | missingDefinition (name : String)
  | tooManyArguments (name : String) (named declared : Nat)
deriving DecidableEq, Repr

/-- The wording of a cause. -/
def Cause.message : Cause → String
  | .required kind place found =>
    "Expected " ++ kind.describe ++ " " ++ place.text ++ " but found " ++ found.text
  | .leftOver body after => "Unexpected `" ++ body ++ "` after " ++ after.text
  | .unclosed opening closing => "Expected " ++ closing.describe ++ " to close " ++ opening.describe
  | .unrecognised body => "Unrecognised text `" ++ body ++ "`"
  | .missingExpression => "Expected an expression but found end of input"
  | .noExpression body => "Expected an expression but found `" ++ body ++ "`"
  | .bareMinus => "Expected a number after prefix `-`"
  | .missingItem => "Expected a list item between commas"
  | .rangeBound => "Expected a number or a name on each side of `..`"
  | .noRecordField body => "Expected `name: value` in object literal but found `" ++ body ++ "`"
  | .missingRecordField => "Expected a field between commas in object literal"
  | .chainedComparison first second =>
    "Comparison operators cannot be chained: `" ++ first.symbol ++ "` followed by `" ++
      second.symbol ++ "`"
  | .missingThen => "Expected `then` after the condition of `if`"
  | .missingElse => "Expected `else` to complete `if`"
  | .missingOf => "Expected `of` after the predicate of `case`"
  | .missingBranch => "Expected at least one branch after `of`"
  | .missingBranchArrow found => "Expected `->` after the pattern " ++ found.text
  | .missingIn => "Expected `in` to close `let`"
  | .missingLambdaArgument found => "Expected a lambda argument but found " ++ found.text
  | .missingPattern => "Expected a pattern before `->`"
  | .noPattern body => "Expected a pattern but found `" ++ body ++ "`"
  | .noPatternField tag body =>
    "Expected a field name in `" ++ tag ++ "` pattern but found `" ++ body ++ "`"
  | .unclosedPattern tag => "Expected `\x7d` to close the `" ++ tag ++ "` pattern"
  | .earlyEmptyList => "`[]` can only end a list pattern"
  | .missingListPart => "Expected a pattern on each side of `::`"
  | .noListPart body => "Invalid list pattern part `" ++ body ++ "`"
  | .type error => error.message
  | .missingTypeName => "Expected a type name"
  | .noTypeName body => "Expected a type name but found `" ++ body ++ "`"
  | .unclosedTypeArgument => "Expected `)` to close type argument"
  | .noTypeArgument body head => "Unexpected `" ++ body ++ "` in type `" ++ head ++ "`"
  | .missingDeclaration => "Expected a declaration but found end of input"
  | .noDeclaration body => "Expected a declaration but found `" ++ body ++ "`"
  | .missingLocal => "Expected at least one definition after `let`"
  | .noLocal => "Only functions and constants can be defined in `let`"
  | .noModuleName found =>
    "Expected a module name or path after `import` but found " ++ found.text
  | .noExposedName body => "Expected a name in exposing list but found `" ++ body ++ "`"
  | .unclosedNames => "Expected `)` to close the exposing list"
  | .noTypedField => "Expected `name: type` in field list"
  | .missingDefinition name => "Expected a definition of `" ++ name ++ "` after its type signature"
  | .tooManyArguments name named declared =>
    "`" ++ name ++ "` names " ++ toString named ++ " arguments but its type signature declares " ++
      toString declared

end ParseError

/-- A cause and the line to blame. -/
structure ParseError where
  cause : ParseError.Cause
  line : Nat
deriving DecidableEq, Repr

/-- The wording of an error. -/
def ParseError.message (error : ParseError) : String :=
  error.cause.message

/-- The wording of an error with its line in front. -/
def ParseError.display (error : ParseError) : String :=
  "line " ++ toString error.line ++ ": " ++ error.message

/-- What reading gives: a value or an error. -/
abbrev Parsed (α : Type) := Except ParseError α

end DerwLang
