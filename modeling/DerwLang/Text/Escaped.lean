/-
**Text with its escapes shown.**

Between double quotes, a quote, a backslash, a tab, the line ends and the null character are written with a
backslash, a character that has no printed form of its own by its code point, and everything else as it is.
-/

import DerwLang.Text.Layout

namespace DerwLang.Text

/-- A code point in lower-case hexadecimal digits. -/
def hexadecimal (code : Nat) : List Char :=
  Nat.toDigits 16 code

/-- One character as it is written between quotes. -/
def escapeChar (c : Char) : List Char :=
  if c == '\\' then ['\\', '\\']
  else if c == '"' then ['\\', '"']
  else if c == '\t' then ['\\', 't']
  else if c == '\n' then ['\\', 'n']
  else if c == '\r' then ['\\', 'r']
  else if c == '\x00' then ['\\', '0']
  else if isPrintable c then [c]
  else ['\\', 'u', '\x7b'] ++ hexadecimal c.toNat ++ ['\x7d']

/-- A text between double quotes, with its escapes shown. -/
def escaped (text : String) : String :=
  quoted (String.ofList (text.toList.flatMap escapeChar))

end DerwLang.Text
