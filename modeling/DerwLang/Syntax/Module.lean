/-
**Modules.**

A module is a name, its declarations, and the errors of the declarations that could not be read. Modules whose
name ends in `_test` export their test definitions by themselves (`testExports?`).
-/

import DerwLang.Grammar.Error
import DerwLang.Syntax.Expression

namespace DerwLang

/-- A module as it was read. -/
structure Module where
  name : String
  body : List Block
  errors : List ParseError

namespace Module

/-- The union types that the module declares. -/
def unions (module : Module) : List UnionType :=
  module.body.filterMap fun
    | .union declared => some declared
    | _ => none

/-- The names that the module defines. -/
def definedNames (module : Module) : List String :=
  module.body.filterMap fun
    | .function definition => some definition.name
    | .constant definition => some definition.name
    | _ => none

/-- The names of the tests that a test module exports, if there are any. -/
def testExports? (module : Module) : Option (List String) :=
  if Text.endsWith module.name "_test" then
    match module.definedNames.filter fun name => Text.startsWith name "test" with
    | [] => none
    | names => some names
  else none

end Module

end DerwLang
