/-
**Formatting.**

A source without errors is written anew in the canonical layout, and ends with a line feed unless it is empty.
A source with errors is refused.
-/

import DerwLang.Canonical.Layout
import DerwLang.Grammar.Module

namespace DerwLang

/-- Why a source is not formatted: how many errors it has, and the first of them. -/
structure FormatError where
  count : Nat
  first : ParseError
deriving Repr

/-- The wording of the refusal. -/
def FormatError.message (error : FormatError) : String :=
  "cannot format source with " ++ toString error.count ++ " parse error(s); first: " ++
    error.first.display

/-- The source in the canonical layout. -/
def formatSource (source : String) : Except FormatError String :=
  let module := parse source
  match module.errors with
  | first :: rest => .error ⟨rest.length + 1, first⟩
  | [] =>
    let text := Canonical.module module
    .ok (if text.isEmpty then "" else text ++ "\n")

end DerwLang
