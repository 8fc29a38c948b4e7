/-
**Running the commands.**

Commands work on their sources one after the other, in order.

* `compile` writes the text of each source for its target. A source that cannot be read as a module is reported
  and passed over; a file that cannot be read or written ends the command.
* `check` reports what is wrong with each source and writes nothing.
* `fmt` gives each source its canonical layout, or only names those that do not have it.

What is worked out from a source alone (`CompileOptions.outcome`, `checkOutcome`) is kept apart from what is done
with the files. `run` reads the arguments and answers with the exit code.
-/

import DerwLang.CommandLine.Arguments
import DerwLang.CommandLine.Sources
import DerwLang.Compiler.Run
import DerwLang.Json.Syntax
import DerwLang.Text.Escaped

namespace DerwLang.CommandLine

/-! ### What is printed about a source -/

/-- A token as it is shown in a dump. -/
def showToken (token : Token) : String :=
  "Token \x7b kind: " ++ token.kind.label ++ ", body: " ++ Text.escaped token.body
    ++ ", line: " ++ toString token.line ++ ", column: " ++ toString token.column ++ " \x7d"

/-- A line of source as it is shown below a diagnostic. -/
def showLine (line : String) : String :=
  "   | " ++ String.ofList (line.toList.flatMap fun c => if c == '\t' then [' ', ' ', ' ', ' '] else [c])

/-- The report of a diagnostic: its message, where it arises, and the line that it arises in. -/
def showDiagnostic (source : SourceFile) (diagnostic : Diagnostic) : List String :=
  (diagnostic.level.word ++ ": " ++ diagnostic.message) ::
    match diagnostic.line with
    | none => []
    | some line =>
      ("  --> " ++ source.path ++ ":" ++ toString line) ::
        ((Text.lines source.contents)[line - 1]?.map showLine).toList

/-- The reports of all diagnostics. -/
def showDiagnostics (source : SourceFile) (diagnostics : Diagnostics) : List String :=
  diagnostics.entries.flatMap (showDiagnostic source)

/-- The report that a source fails. -/
def showError (source : SourceFile) (error : CompileError) : String :=
  "error: " ++ source.path ++ ": " ++ error.message

/-! ### What a source comes to -/

/-- What is printed and reported about a source, and what comes of it unless it fails. -/
structure Outcome (α : Type) where
  printed : List String := []
  reported : List String := []
  result? : Option α := none

/-- The text with a line end after its last line. -/
def endLastLine (text : String) : String :=
  if text.isEmpty || Text.endsWith text "\n" then text else text ++ "\n"

/-- What compiling a source comes to: the text to write for it. -/
def CompileOptions.outcome (options : CompileOptions) (source : SourceFile) : Outcome String :=
  let tokens := if options.dumpTokens then (tokenize source.contents).map showToken else []
  match Compiler.compile ⟨options.target, .empty⟩ source with
  | (.error error, after) => {
      printed := tokens
      reported := showDiagnostics source after.diagnostics ++ [showError source error] }
  | (.ok compilation, after) => {
      printed := tokens ++ if options.emitTree then [compilation.module.toJson.pretty] else []
      reported := showDiagnostics source after.diagnostics
      result? := some (endLastLine compilation.output) }

/-- What checking a source comes to. -/
def checkOutcome (source : SourceFile) : Outcome Unit :=
  match Compiler.check ⟨.typeScript, .empty⟩ source with
  | (.error error, after) => {
      reported := showDiagnostics source after.diagnostics ++ [showError source error] }
  | (.ok _, after) => {
      printed := ["  ok " ++ source.path]
      reported := showDiagnostics source after.diagnostics
      result? := some () }

/-! ### Effects -/

variable {m : Type → Type} [Monad m] [Host m]

/-- Prints a line. -/
def say (line : String) : ExceptT Failure m Unit :=
  ExceptT.lift (Host.print line)

/-- Prints a line on the channel for messages. -/
def warn (line : String) : ExceptT Failure m Unit :=
  ExceptT.lift (Host.report line)

/-- Prints and reports what there is about a source. -/
def announce {α : Type} (outcome : Outcome α) : ExceptT Failure m (Option α) := do
  outcome.printed.forM say
  outcome.reported.forM warn
  return outcome.result?

/-- The contents of a file. -/
def readFile (path : Path) : ExceptT Failure m String :=
  demand (.unreadable path) (Host.read path.text)

/-- Gives a file its contents. -/
def writeFile (path : Path) (contents : String) : ExceptT Failure m Unit :=
  demand (.unwritable path) (Host.write path.text contents)

/-- Makes the directory that a file lies in. -/
def prepareDirectory (path : Path) : ExceptT Failure m Unit :=
  if path.parent = .here then pure ()
  else demand (.uncreatable path.parent) (Host.createDirectories path.parent.text)

/-- The number of sources that a step fails for. -/
def countFailures (step : Source → ExceptT Failure m Bool) : List Source → ExceptT Failure m Nat
  | [] => return 0
  | source :: sources => do
    let succeeded ← step source
    let failures ← countFailures step sources
    return if succeeded then failures else failures + 1

/-! ### Compiling -/

/-- Writes the text of a source beside it or to the output directory, but never onto the source. -/
def CompileOptions.emit (options : CompileOptions) (source : Source) (text : String) :
    ExceptT Failure m Unit := do
  let destination := source.destination options.outputDirectory? options.target
  if destination = source.path then throw (.overwriting source.path)
  prepareDirectory destination
  writeFile destination text
  say ("Compiled " ++ source.path.text ++ " -> " ++ destination.text)

/-- Compiles a source. The answer tells whether it could be read as a module. -/
def CompileOptions.compileSource (options : CompileOptions) (source : Source) :
    ExceptT Failure m Bool := do
  let contents ← readFile source.path
  match ← announce (options.outcome ⟨source.path.text, contents⟩) with
  | none => return false
  | some text =>
    options.emit source text
    return true

/-- Compiles all sources. -/
def CompileOptions.run (options : CompileOptions) : ExceptT Failure m Unit := do
  let sources ← Source.collect options.inputs
  let failures ← countFailures options.compileSource sources
  if failures > 0 then throw (.uncompiled failures)

/-! ### Checking -/

/-- Checks a source. The answer tells whether there is nothing wrong with it. -/
def checkFile (source : Source) : ExceptT Failure m Bool := do
  let contents ← readFile source.path
  return (← announce (checkOutcome ⟨source.path.text, contents⟩)).isSome

/-- Checks all sources. -/
def runCheck (inputs : List String) : ExceptT Failure m Unit := do
  let sources ← Source.collect inputs
  if sources.isEmpty then say "no .derw files found"
  else
    let failures ← countFailures checkFile sources
    if failures > 0 then throw (.unchecked failures)
    say ("Checked " ++ toString sources.length ++ " file(s)")

/-! ### Formatting -/

/-- Formats a source, or only names it if it is not in its canonical layout. The answer tells whether the file
is in that layout in the end. -/
def formatFile (checkOnly : Bool) (source : Source) : ExceptT Failure m Bool := do
  let contents ← readFile source.path
  match formatSource contents with
  | .error error => throw (.unformattable source.path error)
  | .ok formatted =>
    if contents = formatted then return true
    else if checkOnly then
      warn ("needs formatting: " ++ source.path.text)
      return false
    else
      writeFile source.path formatted
      say ("Formatted " ++ source.path.text)
      return true

/-- Formats all sources. -/
def runFormat (inputs : List String) (checkOnly : Bool) : ExceptT Failure m Unit := do
  let sources ← Source.collect inputs
  let unformatted ← countFailures (formatFile checkOnly) sources
  if unformatted > 0 then throw .unformatted

/-! ### The command line -/

/-- The name and version of the program. -/
def versionLine : String := "derw 0.1.0"

/-- How the program is used. -/
def helpText : String :=
  "\n".intercalate
    ["Compile Derw source files to TypeScript, JavaScript or Elm.", "",
     "Usage: derw [-v] compile [--target NAME] [-o DIR] [--emit-ast] [--dump-tokens] [PATH]...",
     "       derw [-v] check [PATH]...",
     "       derw [-v] fmt [--check] [PATH]..."]

/-- Runs a command. -/
def Command.run : Command → ExceptT Failure m Unit
  | .compile options => options.run
  | .check inputs => runCheck inputs
  | .format inputs checkOnly => runFormat inputs checkOnly

/-- Runs the program with its arguments. The exit code is 1 if a command fails, and 2 if there is no sense in the
arguments. -/
def run (arguments : List String) : m UInt32 := do
  match Request.ofArguments arguments with
  | .error error =>
    Host.report ("error: " ++ error.message)
    return 2
  | .ok .showVersion =>
    Host.print versionLine
    return 0
  | .ok .showHelp =>
    Host.print helpText
    return 0
  | .ok (.run command) =>
    match ← command.run.run with
    | .ok () => return 0
    | .error failure =>
      Host.report failure.report
      return 1

end DerwLang.CommandLine
