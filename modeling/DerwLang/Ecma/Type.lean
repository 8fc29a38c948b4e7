/-
**TypeScript types.**

A type in a declaration keeps, of the arguments of a named type, only the variables (`declared`); a type that
annotates a value keeps all of them (`annotated`). Lists are arrays, and functions name their arguments by
position.
-/

import DerwLang.Syntax.Expression

namespace DerwLang.Ecma

/-- Names between angle brackets, if there are any. -/
def typeArguments (names : List String) : String :=
  if names.isEmpty then "" else "<" ++ Text.commaSeparated names ++ ">"

/-- The names of the types that are variables. -/
def variableNames (types : List Ty) : List String :=
  types.filterMap fun
    | .variable name => some name
    | _ => none

/-- An array type from the arguments of a list type and the texts of those that are named types. A variable in
front decides alone. -/
def arrayType (arguments : List Ty) (named : List String) : String :=
  match arguments, named with
  | .variable name :: _, _ => name ++ "[]"
  | _, [] => "any[]"
  | _, [single] => single ++ "[]"
  | _, several => Text.parenthesised (String.intercalate " | " several) ++ "[]"

/-- The arguments of a function type, named by position. -/
def argumentTexts (types : List String) : List String :=
  types.zipIdx.map fun type => "arg" ++ toString type.2 ++ ": " ++ type.1

/-- A function type from the texts of its parts. -/
def functionType (parts : List String) : String :=
  match parts.getLast? with
  | none => "() => void"
  | some result =>
    Text.parenthesised (Text.commaSeparated (argumentTexts parts.dropLast)) ++ " => " ++ result

mutual

/-- A type in a declaration. -/
def declared : Ty → String
  | .variable name => name
  | .named name arguments =>
    if name == "List" then arrayType arguments (declaredNamed arguments)
    else name ++ typeArguments (variableNames arguments)
  | .function parts => functionType (declaredEach parts)

/-- The types in a declaration. -/
def declaredEach : List Ty → List String
  | [] => []
  | type :: rest => declared type :: declaredEach rest

/-- The named ones of the types in a declaration. -/
def declaredNamed : List Ty → List String
  | [] => []
  | type :: rest =>
    let text := declared type
    match type with
    | .named _ _ => text :: declaredNamed rest
    | _ => declaredNamed rest

end

mutual

/-- A type that annotates a value. -/
def annotated : Ty → String
  | .named name arguments =>
    if name == "List" then arrayType arguments (annotatedNamed arguments)
    else name ++ typeArguments (annotatedEach arguments)
  | type => declared type

/-- The types that annotate values. -/
def annotatedEach : List Ty → List String
  | [] => []
  | type :: rest => annotated type :: annotatedEach rest

/-- The named ones of the types that annotate values. -/
def annotatedNamed : List Ty → List String
  | [] => []
  | type :: rest =>
    let text := annotated type
    match type with
    | .named _ _ => text :: annotatedNamed rest
    | _ => annotatedNamed rest

end

mutual

/-- The variables in a type, as often as they occur. -/
def variablesOf : Ty → List String
  | .variable name => [name]
  | .named _ arguments => variablesOfEach arguments
  | .function parts => variablesOfEach parts

/-- The variables in several types, as often as they occur. -/
def variablesOfEach : List Ty → List String
  | [] => []
  | type :: rest => variablesOf type ++ variablesOfEach rest

end

/-- The type parameters of a signature: its variables, each once, in order of first occurrence. -/
def typeParameters (types : List Ty) : List String :=
  ((variablesOfEach types).filter fun name => !Ty.isBuiltinName name).eraseDups

end DerwLang.Ecma
