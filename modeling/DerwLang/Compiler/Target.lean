/-
**Targets.**

A module can be written as TypeScript, JavaScript or Elm, or as source text in its canonical layout.
-/

import DerwLang.Canonical.Layout
import DerwLang.Ecma.Module
import DerwLang.Elm.Layout

namespace DerwLang

/-- What a module is written as. -/
inductive Target
  | typeScript
  | javaScript
  | elm
  | canonical
deriving DecidableEq, Repr

namespace Target

/-- The extension of a target's files, without the dot. -/
def extension : Target → String
  | .typeScript => "ts"
  | .javaScript => "js"
  | .elm => "elm"
  | .canonical => "derw"

/-- The target with the given name. -/
def ofName? (name : String) : Option Target :=
  match name with
  | "ts" | "typescript" => some .typeScript
  | "js" | "javascript" => some .javaScript
  | "elm" => some .elm
  | "derw" => some .canonical
  | _ => none

/-- The wording of the refusal of a name that is no target's. -/
def unknownMessage (name : String) : String :=
  "unknown target `" ++ name ++ "`"

/-- The text of a module. -/
def generate (target : Target) (module : Module) : String :=
  match target with
  | .typeScript => Ecma.module .typeScript module
  | .javaScript => Ecma.module .javaScript module
  | .elm => Elm.module module
  | .canonical => Canonical.module module

end Target

end DerwLang
