/-
**What a command asks of its host.**

A host has a file system and two channels to print lines on. A command is written over any host, so that it can
run on the real machine and on a file tree held as a value alike.
-/

import DerwLang.Text.Lines

namespace DerwLang.CommandLine

/-- Why a host refuses to do something with a file. -/
inductive FileError
  | notFound
  | alreadyExists
  | notADirectory
  | isADirectory
  | nameTooLong
  | notText
  | other (message : String)
deriving DecidableEq, Repr

/-- The wording of a refusal. -/
def FileError.message : FileError → String
  | .notFound => "No such file or directory (os error 2)"
  | .alreadyExists => "File exists (os error 17)"
  | .notADirectory => "Not a directory (os error 20)"
  | .isADirectory => "Is a directory (os error 21)"
  | .nameTooLong => "File name too long (os error 36)"
  | .notText => "stream did not contain valid UTF-8"
  | .other message => message

/-- What stands at a place in a file system. -/
inductive EntryKind
  | file
  | directory
deriving DecidableEq, Repr

/-- A machine that commands run on. Places are given by the text of their path. -/
class Host (m : Type → Type) where
  /-- The path of the directory that the command runs in. -/
  currentDirectory : m String
  /-- What stands at a place. -/
  kindOf : String → m (Except FileError EntryKind)
  /-- The files in a directory and in the directories below it, each by the names that lead to it. -/
  filesBelow : String → m (Except FileError (List (List String)))
  /-- The contents of a file. -/
  read : String → m (Except FileError String)
  /-- Gives a file its contents, and makes it if it is not there. -/
  write : String → String → m (Except FileError Unit)
  /-- Makes a directory, and those that it lies in. -/
  createDirectories : String → m (Except FileError Unit)
  /-- Prints a line. -/
  print : String → m Unit
  /-- Prints a line on the channel for messages. -/
  report : String → m Unit

end DerwLang.CommandLine
