/-
**The sources of a command.**

A command is given files and directories, or works on the directory it runs in. A file that is named is taken as it
is; of a directory, all files below it that have the extension of sources. Each source counts once, with the
directory it was first found under, and sources are ordered by their paths.
-/

import DerwLang.Canonical.Format
import DerwLang.CommandLine.Host
import DerwLang.CommandLine.Path
import DerwLang.Compiler.Target

namespace DerwLang.CommandLine

/-! ### Failures -/

/-- Why a command fails. -/
inductive Failure
  | inaccessible (input : String) (error : FileError)
  | unlistable (input : String) (error : FileError)
  | unreadable (path : Path) (error : FileError)
  | unformattable (path : Path) (error : FormatError)
  | uncreatable (directory : Path) (error : FileError)
  | unwritable (path : Path) (error : FileError)
  | overwriting (path : Path)
  | uncompiled (count : Nat)
  | unchecked (count : Nat)
  | unformatted

namespace Failure

/-- The wording of a failure. -/
def message : Failure → String
  | .inaccessible input _ => "Failed to access " ++ input
  | .unlistable input _ => "Failed to read directory " ++ input
  | .unreadable path _ => "Failed to read " ++ path.text
  | .unformattable path _ => "Failed to format " ++ path.text
  | .uncreatable directory _ => "Failed to create " ++ directory.text
  | .unwritable path _ => "Failed to write " ++ path.text
  | .overwriting path =>
    "refusing to overwrite " ++ path.text ++ "; pass --output to choose another directory"
  | .uncompiled count => toString count ++ " file(s) failed to compile"
  | .unchecked count => toString count ++ " file(s) failed to check"
  | .unformatted => "one or more files require formatting"

/-- The wording of what a failure comes from, if it comes from something else. -/
def cause? : Failure → Option String
  | .inaccessible _ error | .unlistable _ error | .unreadable _ error | .uncreatable _ error
  | .unwritable _ error => some error.message
  | .unformattable _ error => some error.message
  | _ => none

/-- The report of a failure: its message, and below it what it comes from, indented. -/
def report (failure : Failure) : String :=
  let lines := ["Error: " ++ failure.message] ++
    match failure.cause? with
    | none => []
    | some cause => ["", "Caused by:"] ++ (Text.splitAt '\n' cause).map ("    " ++ ·)
  "\n".intercalate lines

end Failure

/-- The answer of a host, its refusals turned into failures. -/
def demand {m : Type → Type} {α : Type} [Monad m] (failure : FileError → Failure)
    (answer : m (Except FileError α)) : ExceptT Failure m α :=
  ExceptT.mk do
    match ← answer with
    | .error error => return .error (failure error)
    | .ok value => return .ok value

/-! ### Collecting -/

/-- A source, and the directory it was found under unless it was named itself. -/
structure Source where
  path : Path
  base? : Option Path
deriving DecidableEq, Repr

namespace Source

/-- The extension of sources. -/
def extension : String := "derw"

/-- The name is that of a source. -/
def isName (name : String) : Bool :=
  Path.extensionOf? name == some extension

/-- Sources in order with one more, which is left out if its path is there. -/
def insert (source : Source) : List Source → List Source
  | [] => [source]
  | other :: sources =>
    if other.path = source.path then other :: sources
    else if source.path.before other.path then source :: other :: sources
    else other :: insert source sources

/-- The sources of a directory, from the names that lead to its files. -/
def ofDirectory (base : Path) (files : List (List String)) : List Source :=
  (files.filter fun names => names.getLast?.any isName).map fun names => ⟨base.down names, some base⟩

variable {m : Type → Type} [Monad m] [Host m]

/-- The sources that a path gives. -/
def ofInput (input : String) : ExceptT Failure m (List Source) := do
  match ← demand (.inaccessible input) (Host.kindOf input) with
  | .file => return [⟨.ofText input, none⟩]
  | .directory =>
    return ofDirectory (.ofText input) (← demand (.unlistable input) (Host.filesBelow input))

/-- The sources that several paths give together with those before. -/
def gather (sources : List Source) : List String → ExceptT Failure m (List Source)
  | [] => return sources
  | input :: inputs => do
    gather ((← ofInput input).foldl (fun sources source => source.insert sources) sources) inputs

/-- The sources that a command works on. -/
def collect (inputs : List String) : ExceptT Failure m (List Source) := do
  if inputs.isEmpty then gather [] [← ExceptT.lift Host.currentDirectory]
  else gather [] inputs

/-! ### Destinations -/

/-- Where a source lies below an output directory: as it lies below its base, or else by its name alone. -/
def placeBelow (source : Source) : Path :=
  let named : Path := ⟨.above 0, source.path.fileName?.toList⟩
  ((source.base?.bind source.path.relativeTo?)).getD named

/-- Where the text written for a source goes: beside the source, or below an output directory. -/
def destination (source : Source) (outputDirectory? : Option String) (target : Target) : Path :=
  let place :=
    match outputDirectory? with
    | none => source.path
    | some directory => (Path.ofText directory).join source.placeBelow
  place.withExtension target.extension

end Source

end DerwLang.CommandLine
