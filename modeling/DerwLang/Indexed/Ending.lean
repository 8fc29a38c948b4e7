/-
**Where a reading ends.**

The readers of what stands between two indices give what they have read. Those of this module give the cursor as well, as the
reading leaves it: after the last token that it took, or at the place to stop when all of it has been handed on in parts.
-/

import DerwLang.Indexed.Declaration

namespace DerwLang.Indexed

/-- A whole expression, and the cursor after it. -/
def expressionEnding (readers : Readers) (cursor : Cursor) : Guarded (Expression × Cursor) := do
  let (whole, final) ← chain readers cursor
  final.expectEnd .expression
  return (whole, final)

/-- A whole body, and the cursor after it. -/
def bodyEnding (readers : Readers) (cursor : Cursor) : Guarded (Body × Cursor) :=
  if cursor.nextKind == some (.keyword .letWord) then do
    let body ← bodyStep readers cursor
    return (body, cursor.moved cursor.stop)
  else do
    let (result, final) ← expressionEnding readers cursor
    return (⟨[], result⟩, final)

/-- A whole pattern, and the cursor after it. -/
def patternEnding (cursor : Cursor) : Guarded (Pattern × Cursor) := do
  match ← access (findKind cursor (.operator .cons)) with
  | some _ =>
    let ranges ← access (parts cursor.tokens cursor.index cursor.stop (.operator .cons))
    let parts ← listParts cursor ranges
    return (.list parts, cursor.moved cursor.stop)
  | none =>
    let (pattern, ending) ← patternHead cursor
    ending.expectEnd .pattern
    return (pattern, ending)

/-- The definitions of a `let`, and the cursor after them. -/
def localsEnding (body : Cursor → Guarded Body) (cursor : Cursor) : Guarded (List Block × Cursor) := do
  let locals ← localDefinitions body cursor
  return (locals, cursor.moved cursor.stop)

/-- A whole expression that nests less than so deep, and the cursor after it. -/
def expressionEndingAt : Nat → Cursor → Guarded (Expression × Cursor)
  | 0, _ => .fault .endless
  | depth + 1, cursor => expressionEnding ⟨expressionAt depth, bodyAt depth⟩ cursor

/-- A whole body that nests less than so deep, and the cursor after it. -/
def bodyEndingAt : Nat → Cursor → Guarded (Body × Cursor)
  | 0, _ => .fault .endless
  | depth + 1, cursor => bodyEnding ⟨expressionAt depth, bodyAt depth⟩ cursor

end DerwLang.Indexed
