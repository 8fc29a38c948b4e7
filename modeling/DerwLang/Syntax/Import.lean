/-
**The clauses of an import.**

After the name of the module, an import says by what other name it is known here, and which of its names are
used without it.
-/

import DerwLang.Syntax.Expression

namespace DerwLang

/-- ` as Name`, if the module has another name here. -/
def ImportedModule.aliasClause (imported : ImportedModule) : String :=
  match imported.alias? with
  | none => ""
  | some name => " as " ++ name

/-- ` exposing (a, b)`, if names are used without the module's. -/
def ImportedModule.exposingClause (imported : ImportedModule) : String :=
  if imported.exposing.isEmpty then ""
  else " exposing " ++ Text.parenthesised (Text.commaSeparated imported.exposing)

end DerwLang
