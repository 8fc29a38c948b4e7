/-
**Expressions, patterns and declarations.**

The syntax of the language. Numbers, booleans and names keep their text (`Expression.value`), and quoted texts
what stands between their quotes, escapes included. A `Body` is a result with the definitions that are local
to it, and it stands wherever a `let` may: in definitions, in both branches of a conditional and in the
branches of a case.
-/

import DerwLang.Syntax.Operator
import DerwLang.Syntax.Type

namespace DerwLang

/-! ## Patterns -/

/-- `Tag { a, b }`: a tag and some of its fields. -/
structure TagPattern where
  tag : String
  fields : List String
deriving DecidableEq, Repr

/-- One part of a list pattern, `head :: middle :: Tag :: rest`. -/
inductive ListPart
  | emptyList
  | string (text : String)
  | formatString (text : String)
  | name (name : String)
  | tag (pattern : TagPattern)
deriving DecidableEq, Repr

/-- What stands left of the arrow of a case branch. -/
inductive Pattern
  | tag (pattern : TagPattern)
  | string (text : String)
  | formatString (text : String)
  | emptyList
  | list (parts : List ListPart)
  /-- `default`, which matches everything -/
  | otherwise
deriving DecidableEq, Repr

/-! ## Declarations that hold no expression -/

/-- How an import names its module. -/
inductive ModuleOrigin
  /-- a bare name -/
  | library
  /-- a quoted path -/
  | path
deriving DecidableEq, Repr

/-- One imported module. -/
structure ImportedModule where
  name : String
  alias? : Option String
  exposing : List String
  origin : ModuleOrigin
deriving DecidableEq, Repr

/-- A name and its type: a field of a tag, or a property of an alias. -/
structure TypedField where
  name : String
  type : Ty
deriving Repr

/-- One tag of a union type and the fields of its record. -/
structure Tag where
  name : String
  fields : List TypedField
deriving Repr

/-- A union type: its name with its parameters, and its tags. -/
structure UnionType where
  type : Ty
  tags : List Tag
deriving Repr

/-- A name for a record type. -/
structure TypeAlias where
  type : Ty
  properties : List TypedField
deriving Repr

/-- An argument of a function. -/
inductive Parameter
  | named (name : String) (type : Ty)
  /-- declared in the signature and not bound in the definition -/
  | anonymous (index : Nat) (type : Ty)
deriving Repr

/-- The type of an argument. -/
def Parameter.type : Parameter → Ty
  | .named _ type => type
  | .anonymous _ type => type

/-! ## Expressions -/

mutual

/-- The expressions of the language. -/
inductive Expression
  /-- a number, a boolean or a name -/
  | value (text : String)
  | string (text : String)
  | formatString (text : String)
  | list (items : List Expression)
  | range (first last : String)
  | record (literal : RecordLiteral)
  | conditional (predicate : Expression) (whenTrue whenFalse : Body)
  | caseOf (predicate : Expression) (branches : List Branch)
  | binary (operator : BinaryOperator) (left right : Expression)
  | call (name : String) (arguments : List Expression)
  | lambda (lambda : Lambda)
  /-- a lambda applied in place, which is what a pipe into a lambda amounts to -/
  | lambdaCall (lambda : Lambda) (arguments : List Expression)
  | construct (tag : String) (literal : RecordLiteral)
  /-- a value of another module -/
  | reference (path : List String) (value : Expression)

/-- The fields of a record, perhaps over those of a base: `{ base, name: value }`. -/
structure RecordLiteral where
  base : Option String
  fields : List Field

/-- One field of a record literal. -/
structure Field where
  name : String
  value : Expression

/-- A function without a name. -/
structure Lambda where
  parameters : List String
  body : Expression

/-- A result and the definitions that are local to it. -/
structure Body where
  locals : List Block
  result : Expression

/-- One branch of a case. -/
structure Branch where
  pattern : Pattern
  body : Body

/-- The definition of a function with its signature. -/
structure FunctionDefinition where
  name : String
  returnType : Ty
  parameters : List Parameter
  body : Body

/-- The definition of a constant with its type. -/
structure ConstantDefinition where
  name : String
  type : Ty
  body : Body

/-- A declaration of a module. -/
inductive Block
  | imports (modules : List ImportedModule)
  | exports (names : List String)
  | union (declared : UnionType)
  | alias (declared : TypeAlias)
  | function (definition : FunctionDefinition)
  | constant (definition : ConstantDefinition)
  | comment (text : String)
  | multilineComment (text : String)

end

/-- The literal holds nothing at all. -/
def RecordLiteral.isEmpty (literal : RecordLiteral) : Bool :=
  literal.base.isNone && literal.fields.isEmpty

end DerwLang
