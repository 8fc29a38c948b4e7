/-
**Compiling and checking one source after the other.**

A compiler reads, checks and writes sources and gathers their diagnostics. Errors in reading fail a source.
Problems with types are warnings when code is generated, and fail a source that is only checked.
-/

import DerwLang.Compiler.Target
import DerwLang.Grammar.Module
import DerwLang.Typing.Check
import DerwLang.Text.PathName

namespace DerwLang

/-- A source with the path it came from. -/
structure SourceFile where
  path : String
  contents : String
deriving Repr

/-- The name of the module that a path holds: its last segment without extension, or that of a main module. -/
def moduleNameOfPath (path : String) : String :=
  let name := Text.nameFromPath path
  if name.isEmpty then "Main" else name

/-- The name of the module that a source declares. -/
def SourceFile.moduleName (source : SourceFile) : String :=
  moduleNameOfPath source.path

/-- The module that a source declares. -/
def SourceFile.parse (source : SourceFile) : Module :=
  parseModule source.contents source.moduleName

/-- Why a source fails. -/
inductive CompileError
  | parsing
  | typing
deriving DecidableEq, Repr

/-- The wording of a failure. -/
def CompileError.message : CompileError → String
  | .parsing => "Parsing failed"
  | .typing => "Type checking failed"

/-- A module and the text that was written for it. -/
structure Compilation where
  module : Module
  output : String

/-- A compiler for one target, with the diagnostics so far. -/
structure Compiler where
  target : Target
  diagnostics : Diagnostics := .empty

namespace Compiler

/-- The compiler with further diagnostics. -/
def report (compiler : Compiler) (diagnostics : Diagnostics) : Compiler :=
  { compiler with diagnostics := compiler.diagnostics.append diagnostics }

/-- The module of a source, unless there are errors in it. -/
def read (compiler : Compiler) (source : SourceFile) : Except CompileError Module × Compiler :=
  let module := source.parse
  if module.errors.isEmpty then (.ok module, compiler)
  else (.error .parsing, compiler.report (.ofParseErrors module.errors))

/-- The module of a source with the text written for it. Problems with types are warnings. -/
def compile (compiler : Compiler) (source : SourceFile) :
    Except CompileError Compilation × Compiler :=
  match compiler.read source with
  | (.error error, after) => (.error error, after)
  | (.ok module, after) =>
    (.ok ⟨module, after.target.generate module⟩, after.report module.check.asWarnings)

/-- The module of a source. Problems with types are errors. -/
def check (compiler : Compiler) (source : SourceFile) : Except CompileError Module × Compiler :=
  match compiler.read source with
  | (.error error, after) => (.error error, after)
  | (.ok module, after) =>
    let found := module.check
    (if found.isEmpty then .ok module else .error .typing, after.report found)

end Compiler

end DerwLang
