/-
**Types.**

A type is a variable, a named type with arguments, or a function type, whose last part is the result. Some
names are built in: they are never variables. `Ty.text` writes a type as annotations spell it, with brackets
around compound arguments.
-/

import DerwLang.Text.Class
import DerwLang.Text.Layout

namespace DerwLang

/-- The types of the language. -/
inductive Ty
  | variable (name : String)
  | named (name : String) (arguments : List Ty)
  /-- the types of the arguments, and then of the result -/
  | function (parts : List Ty)
deriving Repr

namespace Ty

/-- The names of types that need no declaration. -/
def builtinNames : List String :=
  ["any", "boolean", "List", "number", "string", "void"]

/-- The name is that of a type that needs no declaration. -/
def isBuiltinName (name : String) : Bool :=
  builtinNames.contains name

/-- A named type without arguments. -/
def plain (name : String) : Ty := .named name []

/-- The type of which nothing is known. -/
def any : Ty := plain "any"

/-- The type of numbers. -/
def number : Ty := plain "number"

/-- The type of texts. -/
def string : Ty := plain "string"

/-- The type of the truth values. -/
def boolean : Ty := plain "boolean"

/-- The type of lists with the given elements. -/
def list (element : Ty) : Ty := .named "List" [element]

/-- A name on its own: built in or capitalised it is a named type, and else a variable. -/
def ofName (name : String) : Ty :=
  if isBuiltinName name || Text.isCapitalised name then plain name else .variable name

/-- Nothing is known of the type. -/
def isAny : Ty → Bool
  | .named name [] => name == "any"
  | _ => false

/-- The type is a variable. -/
def isVariable : Ty → Bool
  | .variable _ => true
  | _ => false

/-- The type is the type of numbers. -/
def isNumber : Ty → Bool
  | .named name [] => name == "number"
  | _ => false

/-- The type is a function type. -/
def isFunction : Ty → Bool
  | .function _ => true
  | _ => false

/-- The type needs brackets as an argument. -/
def isCompound : Ty → Bool
  | .variable _ => false
  | .named _ arguments => !arguments.isEmpty
  | .function _ => true

/-- The name of the type, if it has one. -/
def name? : Ty → Option String
  | .variable name => some name
  | .named name _ => some name
  | .function _ => none

/-- The type of the elements of a list type. -/
def listElement? : Ty → Option Ty
  | .named name [element] => if name == "List" then some element else none
  | _ => none

/-! ## Writing -/

mutual

/-- The type with its names written by the given function. -/
def write (rename : String → String) : Ty → String
  | .variable name => name
  | .named name arguments => rename name ++ writeArguments rename arguments
  | .function parts => String.intercalate " -> " (writeParts rename parts)

/-- The arguments of a named type, each after a space. -/
def writeArguments (rename : String → String) : List Ty → String
  | [] => ""
  | type :: rest =>
    let text := type.write rename
    " " ++ (if type.isCompound then Text.parenthesised text else text) ++ writeArguments rename rest

/-- The parts of a function type. -/
def writeParts (rename : String → String) : List Ty → List String
  | [] => []
  | type :: rest =>
    let text := type.write rename
    (if type.isFunction then Text.parenthesised text else text) :: writeParts rename rest

end

/-- The type as annotations spell it. -/
def text (type : Ty) : String :=
  type.write id

end Ty

end DerwLang
