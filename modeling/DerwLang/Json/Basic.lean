/-
**JSON values and their layout.**

Members of an object keep their order. A value is written over several lines, two spaces to a level, with empty
arrays and objects closed at once; in strings, quotes, backslashes and control characters are escaped and all
else stands as it is.
-/

import DerwLang.Text.Layout

namespace DerwLang

mutual

/-- A JSON value; the only numbers are natural. -/
inductive Json
  | null
  | number (value : Nat)
  | string (text : String)
  | array (items : List Json)
  | object (members : List Member)

/-- A name and its value in an object. -/
structure Member where
  name : String
  value : Json

end

namespace Json

/-- An object with one member, which tells its kind. -/
def tagged (kind : String) (value : Json) : Json :=
  .object [⟨kind, value⟩]

/-- A text, or nothing. -/
def ofOption : Option String → Json
  | none => .null
  | some text => .string text

/-- Several texts. -/
def ofTexts (texts : List String) : Json :=
  .array (texts.map .string)

/-! ## Writing -/

/-- One character as it stands in a string. -/
def escapeChar (c : Char) : List Char :=
  if c == '"' then ['\\', '"']
  else if c == '\\' then ['\\', '\\']
  else if c == '\n' then ['\\', 'n']
  else if c == '\r' then ['\\', 'r']
  else if c == '\t' then ['\\', 't']
  else if c == '\x08' then ['\\', 'b']
  else if c == '\x0c' then ['\\', 'f']
  else if c.toNat < 0x20 then
    ['\\', 'u', '0', '0', Nat.digitChar (c.toNat / 16), Nat.digitChar (c.toNat % 16)]
  else [c]

/-- A string with its quotes. -/
def quote (text : String) : String :=
  Text.quoted (String.ofList (text.toList.flatMap escapeChar))

/-- A line end and the spaces of a level. -/
def newline (level : Nat) : String :=
  "\n" ++ String.ofList (List.replicate (2 * level) ' ')

mutual

/-- The value as it is written at a level of nesting. -/
def write (level : Nat) : Json → String
  | .null => "null"
  | .number value => toString value
  | .string text => quote text
  | .array [] => "[]"
  | .array (item :: items) =>
    "[" ++ newline (level + 1) ++ item.write (level + 1) ++ writeItems (level + 1) items ++
      newline level ++ "]"
  | .object [] => "\x7b\x7d"
  | .object (member :: members) =>
    "\x7b" ++ newline (level + 1) ++ writeMember (level + 1) member ++ writeMembers (level + 1) members ++
      newline level ++ "\x7d"

/-- The further items of an array. -/
def writeItems (level : Nat) : List Json → String
  | [] => ""
  | item :: items => "," ++ newline level ++ item.write level ++ writeItems level items

/-- The further members of an object. -/
def writeMembers (level : Nat) : List Member → String
  | [] => ""
  | member :: members => "," ++ newline level ++ writeMember level member ++ writeMembers level members

/-- A member as it is written at a level of nesting. -/
def writeMember (level : Nat) : Member → String
  | ⟨name, value⟩ => quote name ++ ": " ++ value.write level

end

/-- The value over several lines. -/
def pretty (value : Json) : String :=
  value.write 0

end Json

end DerwLang
