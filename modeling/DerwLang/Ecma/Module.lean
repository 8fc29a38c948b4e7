/-
**ECMAScript modules.**

A module is the declarations of its blocks, one below the other with a blank line between them; comments leave
nothing. A test module exports its tests first.
-/

import DerwLang.Ecma.Lowering
import DerwLang.Syntax.Pipes

namespace DerwLang.Ecma

/-- The declarations of blocks, in order. -/
def declarations (dialect : Dialect) : List Block → Lowering (List Declaration)
  | [] => return []
  | block :: rest => do
    let first ← lowerBlock dialect block
    let others ← declarations dialect rest
    return first :: others

/-- The declarations of a module. -/
def moduleDeclarations (dialect : Dialect) (module : Module) : List Declaration :=
  let exports := module.testExports?.map fun names => Declaration.verbatim (exportText names)
  exports.toList ++ ((declarations dialect (Block.directEach module.body)).run {}).1

/-- The text of a module. -/
def module (dialect : Dialect) (module : Module) : String :=
  let sections := (moduleDeclarations dialect module).map (Declaration.text dialect)
  String.intercalate "\n\n" (sections.filter fun text => !text.isEmpty)

end DerwLang.Ecma
