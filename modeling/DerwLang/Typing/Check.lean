/-
**Checking definitions.**

The declared type of every constant, and the declared result of every function, has to agree with the type of
its expression. Each definition gives one diagnostic at most, and the definitions of a module see no more of
each other than the union types declared anywhere in it. Local definitions are not checked.
-/

import DerwLang.Report.Diagnostic
import DerwLang.Syntax.Module
import DerwLang.Typing.Inference

namespace DerwLang

/-- What is wrong with a definition, if anything. -/
def definitionProblem? (unions : List UnionType) (name : String) (declared : Ty)
    (value : Expression) : Option String :=
  match value.infer unions with
  | .ok inferred =>
    if declared.agree inferred then none
    else some ("Expected " ++ declared.text ++ " but got " ++ inferred.text ++ " in `" ++ name ++ "`")
  | .error error => some (error.message ++ " in `" ++ name ++ "`")

/-- What is wrong with a declaration, if anything. -/
def Block.problem? (unions : List UnionType) : Block → Option String
  | .constant definition =>
    definitionProblem? unions definition.name definition.type definition.body.result
  | .function definition =>
    definitionProblem? unions definition.name definition.returnType definition.body.result
  | _ => none

/-- What is wrong with the definitions of a module, in order. -/
def Module.problems (module : Module) : List String :=
  module.body.filterMap (Block.problem? module.unions)

/-- The diagnostics of a module's definitions. -/
def Module.check (module : Module) : Diagnostics :=
  ⟨module.problems.map fun message => ⟨message, .error, none⟩⟩

/-- A checker and the diagnostics of all modules it has seen. -/
structure Checker where
  diagnostics : Diagnostics := .empty

namespace Checker

/-- The checker after one more declaration: what is wrong with it is one more error. -/
def checkBlock (unions : List UnionType) (checker : Checker) (block : Block) : Checker :=
  match block.problem? unions with
  | some message => ⟨checker.diagnostics.push message⟩
  | none => checker

/-- The checker after one more module, whose declarations see the unions of that module and of no other. -/
def checkModule (checker : Checker) (module : Module) : Checker :=
  module.body.foldl (checkBlock module.unions) checker

end Checker

end DerwLang
