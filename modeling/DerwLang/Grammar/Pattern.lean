/-
**Reading patterns.**

A window that holds a `::` is a list pattern, whose parts stand between the `::` outside brackets. Any other
pattern is a single tag with its fields, a quoted text, the empty list or `default`.
-/

import DerwLang.Grammar.Window
import DerwLang.Syntax.Expression

namespace DerwLang.Grammar

/-- What stands between the quotes or brackets at the ends of a text. -/
def unquote (body : String) : String :=
  String.ofList (body.toList.drop 1).dropLast

/-- The token is a list literal. -/
def isListLiteral (token : Token) : Bool :=
  token.kind == .literal && Text.startsWith token.body "["

/-- The token is a list literal that holds blanks at most. -/
def isEmptyList (token : Token) : Bool :=
  isListLiteral token && Text.isBlankLine (unquote token.body)

/-- The names of the fields up to the closing bracket, and the window after it. -/
def patternFields (tag : String) : Nat → List Token → Parsed (List String × Window)
  | before, [] => .error ⟨.unclosedPattern tag, before⟩
  | _, token :: rest =>
    match token.kind with
    | .closeCurly => .ok ([], ⟨token.line, rest⟩)
    | .identifier =>
      match rest with
      | [] => .error ⟨.required .comma .betweenFields none, token.line⟩
      | next :: more =>
        match next.kind with
        | .closeCurly => .ok ([token.body], ⟨next.line, more⟩)
        | .comma => do
          let (fields, after) ← patternFields tag next.line more
          return (token.body :: fields, after)
        | _ => .error ⟨.required .comma .betweenFields (some next.body), next.line⟩
    | _ => .error ⟨.noPatternField tag token.body, token.line⟩

/-- The optional fields after a tag, and the window after them. -/
def tagPattern (tag : String) (window : Window) : Parsed (TagPattern × Window) :=
  match window.tokens with
  | [] => .ok (⟨tag, []⟩, window)
  | token :: rest =>
    if token.kind == .openCurly then do
      let (fields, after) ← patternFields tag token.line rest
      return (⟨tag, fields⟩, after)
    else .ok (⟨tag, []⟩, window)

/-- A pattern without `::`. -/
def singlePattern (window : Window) : Parsed Pattern :=
  match window.tokens with
  | [] => window.error .missingPattern
  | token :: rest => do
    let after : Window := ⟨token.line, rest⟩
    let refuse : Parsed (Pattern × Window) := .error ⟨.noPattern token.body, token.line⟩
    let (pattern, ending) ← (match token.kind with
      | .string => .ok (.string (unquote token.body), after)
      | .formatString => .ok (.formatString (unquote token.body), after)
      | .literal => if isEmptyList token then .ok (.emptyList, after) else refuse
      | .keyword .defaultWord => .ok (.otherwise, after)
      | .identifier =>
        if Text.isCapitalised token.body then do
          let (pattern, ending) ← tagPattern token.body after
          return (.tag pattern, ending)
        else refuse
      | _ => refuse)
    ending.expectEnd .pattern
    return pattern

/-- One part of a list pattern, and the window after it. -/
def listPart (window : Window) : Parsed (ListPart × Window) :=
  match window.tokens with
  | [] => window.error .missingListPart
  | token :: rest => do
    let after : Window := ⟨token.line, rest⟩
    let refuse : Parsed (ListPart × Window) := .error ⟨.noListPart token.body, token.line⟩
    let (part, ending) ← (match token.kind with
      | .string => .ok (.string (unquote token.body), after)
      | .formatString => .ok (.formatString (unquote token.body), after)
      | .literal => if isEmptyList token then .ok (.emptyList, after) else refuse
      | .identifier =>
        if Text.isCapitalised token.body then do
          let (pattern, ending) ← tagPattern token.body after
          return (.tag pattern, ending)
        else if Text.hasChar token.body '.' then refuse
        else .ok (.name token.body, after)
      | _ => refuse)
    ending.expectEnd .listPart
    return (part, ending)

/-- The parts of a list pattern; `[]` stands in the last place only. -/
def listParts : List Window → Parsed (List ListPart)
  | [] => .ok []
  | window :: more => do
    let (part, ending) ← listPart window
    if part == .emptyList && !more.isEmpty then
      ending.error .earlyEmptyList
    else
      let others ← listParts more
      return part :: others

/-- The pattern left of the arrow of a branch. -/
def pattern (window : Window) : Parsed Pattern :=
  if window.tokens.any fun token => token.kind == .operator .cons then
    Pattern.list <$> listParts (window.splitOutside (.operator .cons))
  else singlePattern window

end DerwLang.Grammar
