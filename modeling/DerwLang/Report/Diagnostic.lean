/-
**Diagnostics.**

A diagnostic is a message with a level and perhaps a line. Diagnostics gather in order and are never taken back;
those of a less severe stage are entered as warnings.
-/

import DerwLang.Grammar.Error

namespace DerwLang

/-- How severe a diagnostic is. -/
inductive Level
  | error
  | warning
deriving DecidableEq, Repr

/-- The label of a level in the form that programs read. -/
def Level.label : Level → String
  | .error => "Error"
  | .warning => "Warning"

/-- The label of a level in the form that people read. -/
def Level.word : Level → String
  | .error => "error"
  | .warning => "warning"

/-- A message with its level, and its line if it has one. -/
structure Diagnostic where
  message : String
  level : Level
  line : Option Nat
deriving DecidableEq, Repr

/-- Diagnostics in the order in which they came up. -/
structure Diagnostics where
  entries : List Diagnostic := []
deriving DecidableEq, Repr

namespace Diagnostics

/-- No diagnostics. -/
def empty : Diagnostics := {}

/-- One more error, perhaps at a line. -/
def pushAt (diagnostics : Diagnostics) (message : String) (line : Option Nat) : Diagnostics :=
  ⟨diagnostics.entries ++ [⟨message, .error, line⟩]⟩

/-- One more error without a line. -/
def push (diagnostics : Diagnostics) (message : String) : Diagnostics :=
  diagnostics.pushAt message none

/-- The diagnostics, and after them others. -/
def append (diagnostics others : Diagnostics) : Diagnostics :=
  ⟨diagnostics.entries ++ others.entries⟩

/-- The same diagnostics, all of them warnings. -/
def asWarnings (diagnostics : Diagnostics) : Diagnostics :=
  ⟨diagnostics.entries.map fun entry => { entry with level := .warning }⟩

/-- There are no diagnostics. -/
def isEmpty (diagnostics : Diagnostics) : Bool :=
  diagnostics.entries.isEmpty

/-- One of the diagnostics is an error. -/
def hasErrors (diagnostics : Diagnostics) : Bool :=
  diagnostics.entries.any fun entry => entry.level == .error

/-- Errors at lines, from messages with their lines. -/
def ofMessages (messages : List (String × Nat)) : Diagnostics :=
  ⟨messages.map fun message => ⟨message.1, .error, some message.2⟩⟩

/-- The errors that reading met. -/
def ofParseErrors (errors : List ParseError) : Diagnostics :=
  ofMessages (errors.map fun error => (error.message, error.line))

end Diagnostics

end DerwLang
