/-
**Layout of generated text.**

All output is indented by four spaces a level, and a line that holds only blanks stays empty. `indent` moves a
whole text one level in; `indentTail` leaves its first line where it is, for text that is spliced into the
middle of a line.
-/

import DerwLang.Text.Lines

namespace DerwLang.Text

/-- One level of indentation. -/
def indentation : String := "    "

/-- The line, empty when it holds only blanks. -/
def settleLine (line : String) : String :=
  if isBlankLine line then "" else line

/-- The line one level in, empty when it holds only blanks. -/
def indentLine (line : String) : String :=
  if isBlankLine line then "" else indentation ++ line

/-- Every line of the text one level in. -/
def indent (text : String) : String :=
  unlines ((lines text).map indentLine)

/-- Every line of the text but the first one level in. -/
def indentTail (text : String) : String :=
  match lines text with
  | [] => ""
  | first :: rest => unlines (first :: rest.map indentLine)

/-- Texts joined by a comma and a space. -/
def commaSeparated (texts : List String) : String :=
  String.intercalate ", " texts

/-- A text between double quotes. -/
def quoted (text : String) : String :=
  "\"" ++ text ++ "\""

/-- A text between backticks. -/
def backquoted (text : String) : String :=
  "`" ++ text ++ "`"

/-- A text between round brackets. -/
def parenthesised (text : String) : String :=
  "(" ++ text ++ ")"

/-- A text between curly brackets, with a space on each side. -/
def braced (text : String) : String :=
  "\x7b " ++ text ++ " \x7d"

end DerwLang.Text
