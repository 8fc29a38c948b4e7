/-
**Reading patterns by index.**

The pattern of a branch stands between two indices. It is a list pattern if a `::` is among its tokens, and is then read part
by part.
-/

import DerwLang.Grammar.Pattern
import DerwLang.Indexed.Cursor

namespace DerwLang.Indexed

open Grammar (isListLiteral unquote)

/-- The token is a list literal that holds blanks at most. -/
def isEmptyList (token : Token) : Checked Bool :=
  if isListLiteral token then do
    let stop ← Checked.minus (Checked.bytes token.body.toList) 1
    let inside ← Checked.chars token.body.toList 1 stop
    return inside.all Text.isBlank
  else return false

/-- The names of the fields up to the closing bracket, and the cursor after it. -/
def patternFields (tag : String) : Nat → Cursor → Guarded (List String × Cursor)
  | 0, _ => .fault .endless
  | round + 1, cursor =>
    match cursor.peek with
    | none => cursor.refuse (.unclosedPattern tag)
    | some token =>
      match token.kind with
      | .closeCurly => return ([], cursor.next)
      | .identifier =>
        if cursor.next.nextKind == some .closeCurly then do
          let (fields, ending) ← patternFields tag round cursor.next
          return (token.body :: fields, ending)
        else do
          let (_, after) ← cursor.next.expect .comma .betweenFields
          let (fields, ending) ← patternFields tag round after
          return (token.body :: fields, ending)
      | _ => .refuse (.noPatternField tag token.body) token.line

/-- The optional fields after a tag, and the cursor after them. -/
def tagPattern (tag : String) (cursor : Cursor) : Guarded (TagPattern × Cursor) :=
  if cursor.nextKind == some .openCurly then do
    let (fields, ending) ← patternFields tag cursor.next.rounds cursor.next
    return (⟨tag, fields⟩, ending)
  else return (⟨tag, []⟩, cursor)

/-- A pattern without `::`, and the cursor after it. -/
def patternHead (cursor : Cursor) : Guarded (Pattern × Cursor) :=
  match cursor.peek with
  | none => cursor.refuse .missingPattern
  | some token =>
    let refuse : Guarded (Pattern × Cursor) := .refuse (.noPattern token.body) token.line
    match token.kind with
    | .string => return (.string (unquote token.body), cursor.next)
    | .formatString => return (.formatString (unquote token.body), cursor.next)
    | .literal => do if ← access (isEmptyList token) then return (.emptyList, cursor.next) else refuse
    | .keyword .defaultWord => return (.otherwise, cursor.next)
    | .identifier =>
      if Text.isCapitalised token.body then do
        let (pattern, ending) ← tagPattern token.body cursor.next
        return (.tag pattern, ending)
      else refuse
    | _ => refuse

/-- A pattern without `::`, up to where the cursor stops. -/
def singlePattern (cursor : Cursor) : Guarded Pattern := do
  let (pattern, ending) ← patternHead cursor
  ending.expectEnd .pattern
  return pattern

/-- One part of a list pattern, and the cursor after it. -/
def listPart (cursor : Cursor) : Guarded (ListPart × Cursor) :=
  match cursor.peek with
  | none => cursor.refuse .missingListPart
  | some token => do
    let refuse : Guarded (ListPart × Cursor) := .refuse (.noListPart token.body) token.line
    let (part, ending) ← (match token.kind with
      | .string => return (.string (unquote token.body), cursor.next)
      | .formatString => return (.formatString (unquote token.body), cursor.next)
      | .literal => do if ← access (isEmptyList token) then return (.emptyList, cursor.next) else refuse
      | .identifier =>
        if Text.isCapitalised token.body then do
          let (pattern, ending) ← tagPattern token.body cursor.next
          return (.tag pattern, ending)
        else if Text.hasChar token.body '.' then refuse
        else return (.name token.body, cursor.next)
      | _ => refuse)
    ending.expectEnd .listPart
    return (part, ending)

/-- The parts of a list pattern, between two indices each; `[]` stands in the last place only. -/
def listParts (cursor : Cursor) : List (Nat × Nat) → Guarded (List ListPart)
  | [] => return []
  | range :: more => do
    let (part, ending) ← listPart (cursor.between range.1 range.2)
    if part == .emptyList && !more.isEmpty then ending.refuse .earlyEmptyList
    else
      let others ← listParts cursor more
      return part :: others

/-- The pattern left of the arrow of a branch. -/
def pattern (cursor : Cursor) : Guarded Pattern := do
  match ← access (findKind cursor (.operator .cons)) with
  | some _ =>
    let ranges ← access (parts cursor.tokens cursor.index cursor.stop (.operator .cons))
    Pattern.list <$> listParts cursor ranges
  | none => singlePattern cursor

end DerwLang.Indexed
