/-
**Names for the values that cases look at.**

The value of a case gets a name made of the hash of its text. Equal texts share a name; different texts with one
hash get `_1`, `_2`, ... in order of first use.
-/

import DerwLang.Text.Hash

namespace DerwLang.Ecma

/-- The names given so far, each with the text it stands for. -/
structure TempNames where
  entries : List (String × String) := []
deriving Repr

namespace TempNames

/-- The names that are taken. -/
def taken (names : TempNames) : List String :=
  names.entries.map Prod.snd

/-- The name of a text whose hash is taken so often by others. -/
def candidate (text : String) : Nat → String
  | 0 => "_res" ++ toString (Text.hash text)
  | count + 1 => "_res" ++ toString (Text.hash text) ++ "_" ++ toString (count + 1)

/-- The first name for a text that is not taken. Among one more candidates than there are names taken, one is
free. -/
def free (names : TempNames) (text : String) : String :=
  let counts := List.range (names.entries.length + 1)
  candidate text ((counts.find? fun count => !names.taken.contains (candidate text count)).getD 0)

/-- The name of a text, and the names given after that. -/
def nameFor (text : String) (names : TempNames) : String × TempNames :=
  match names.entries.lookup text with
  | some name => (name, names)
  | none =>
    let name := names.free text
    (name, ⟨names.entries ++ [(text, name)]⟩)

end TempNames

end DerwLang.Ecma
