/-
**The program.**

The machine that the program runs on, as a host for its commands, and the program itself.
-/

import DerwLang.CommandLine.Run

namespace DerwLang.CommandLine

/-- The refusal that an error of the machine stands for. A name that is too long has the number 36, of either sign. -/
def FileError.ofMachine : IO.Error → FileError
  | .noFileOrDirectory .. => .notFound
  | .alreadyExists .. => .alreadyExists
  | .inappropriateType .. => .notADirectory
  | .invalidArgument file code details =>
    if code == 36 || -code == 36 then .nameTooLong
    else .other (toString (IO.Error.invalidArgument file code details))
  | error => .other (toString error)

/-- The answer of an action, its errors turned into refusals. -/
def attempt {α : Type} (action : IO α) : IO (Except FileError α) := do
  match ← action.toBaseIO with
  | .ok value => return .ok value
  | .error error => return .error (.ofMachine error)

/-- The files below a directory, each by the names that lead to it. Links are not followed. -/
partial def machineFilesBelow (directory : String) : IO (List (List String)) := do
  let place := (← IO.currentDir) / directory
  let mut found := []
  for entry in ← place.readDir do
    match (← entry.path.symlinkMetadata).type with
    | .file => found := found ++ [[entry.fileName]]
    | .dir =>
      let below ← machineFilesBelow (directory ++ "/" ++ entry.fileName)
      found := found ++ below.map (entry.fileName :: ·)
    | _ => pure ()
  return found

/-- What stands at a place of the machine. -/
def machineKind (path : String) : IO EntryKind := do
  let place := (← IO.currentDir) / path
  return if (← place.metadata).type == .file then .file else .directory

/-- The text of a file of the machine. -/
def machineRead (path : String) : IO (Except FileError String) := do
  match ← attempt (IO.FS.readBinFile path) with
  | .error error => return .error error
  | .ok bytes =>
    match String.fromUTF8? bytes with
    | none => return .error .notText
    | some text => return .ok text

/-- The refusal to write a file names a directory that is in the way. -/
def machineWrite (path contents : String) : IO (Except FileError Unit) := do
  let place := (← IO.currentDir) / path
  if ← place.isDir then return .error .isADirectory
  attempt (IO.FS.writeFile path contents)

/-- Makes a directory of the machine, and before it those that it lies in if they are missing. -/
partial def machineCreateDirectories (path : Path) : IO Unit := do
  try IO.FS.createDir path.text
  catch error =>
    match error with
    | .noFileOrDirectory .. =>
      if path.names.isEmpty then throw error
      machineCreateDirectories path.parent
      IO.FS.createDir path.text
    | _ =>
      let place := (← IO.currentDir) / path.text
      if !(← place.isDir) then throw error

instance : Host IO where
  currentDirectory := do return (← IO.currentDir).toString
  kindOf path := attempt (machineKind path)
  filesBelow path := attempt (machineFilesBelow path)
  read := machineRead
  write := machineWrite
  createDirectories path := attempt (machineCreateDirectories (.ofText path))
  print line := do (← IO.getStdout).putStrLn line
  report line := do (← IO.getStderr).putStrLn line

end DerwLang.CommandLine

/-- The program: runs the command that its arguments ask for. -/
def main (arguments : List String) : IO UInt32 :=
  DerwLang.CommandLine.run arguments
