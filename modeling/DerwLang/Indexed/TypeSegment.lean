/-
**The segments of an annotation, by index.**

A loop over the tokens of an annotation counts open brackets and remembers where the part at hand has started. At an arrow
outside brackets, and at the end, it takes that part as a slice.
-/

import DerwLang.Indexed.Access
import DerwLang.Token.TypeSegment

namespace DerwLang.Indexed

/-- The parts between the arrows outside brackets, from an index on; the part at hand has started at `start`. -/
def arrowParts (tokens : List Token) : List Token → (depth index start : Nat) → Checked (List (List Token))
  | [], _, _, start => do
    let last ← Checked.slice tokens start tokens.length
    return [last]
  | token :: rest, depth, index, start =>
    match token.kind with
    | .openBracket => arrowParts tokens rest (depth + 1) (index + 1) start
    | .closeBracket => arrowParts tokens rest (depth - 1) (index + 1) start
    | .arrow =>
      if depth == 0 then do
        let part ← Checked.slice tokens start index
        let others ← arrowParts tokens rest depth (index + 1) (index + 1)
        return part :: others
      else arrowParts tokens rest depth (index + 1) start
    | _ => arrowParts tokens rest depth (index + 1) start

/-- The parts between the arrows outside brackets. -/
def splitArrows (tokens : List Token) : Checked (List (List Token)) :=
  arrowParts tokens tokens 0 0 0

/-- No bracket closes the first one before the last of so many tokens. -/
def closesAtEnd (length : Nat) : List Token → (depth index : Nat) → Checked Bool
  | [], _, _ => .ok true
  | token :: rest, depth, index =>
    match token.kind with
    | .openBracket => closesAtEnd length rest (depth + 1) (index + 1)
    | .closeBracket => do
      let further ← Checked.minus depth 1
      let last ← Checked.minus length 1
      if further == 0 && index != last then return false else closesAtEnd length rest further (index + 1)
    | _ => closesAtEnd length rest depth (index + 1)

/-- What stands between brackets when the first token opens and the last token closes them. -/
def withoutBrackets (tokens : List Token) : Checked (Option (List Token)) :=
  match tokens.head?, tokens.getLast? with
  | some first, some last =>
    if tokens.length < 2 || first.kind != .openBracket || last.kind != .closeBracket then return none
    else do
      if ← closesAtEnd tokens.length tokens 0 0 then
        let stop ← Checked.minus tokens.length 1
        let inner ← Checked.slice tokens 1 stop
        return some inner
      else return none
  | _, _ => return none

/-- The segment that the tokens between two arrows make. -/
def classify : Nat → List Token → Checked TypeSegment
  | 0, _ => .error .endless
  | round + 1, tokens => do
    match ← withoutBrackets tokens with
    | none => return .plain tokens
    | some inner =>
      let parts ← splitArrows inner
      if parts.length > 1 then return .function inner else classify round inner

/-- The segments that the parts of an annotation make, none of which may be empty. -/
def classifyEach (text : String) : List (List Token) → Checked (Except TypeSegment.Error (List TypeSegment))
  | [] => return .ok []
  | part :: more =>
    if part.isEmpty then return .error (.missingSegment (Text.trim text))
    else do
      let segment ← classify (part.length + 1) part
      let others ← classifyEach text more
      return (segment :: ·) <$> others

/-- The segments of an annotation; white space and comments do not count. -/
def typeSegments (tokens : List Token) : Checked (Except TypeSegment.Error (List TypeSegment)) :=
  let significant := Token.significant tokens
  if significant.isEmpty then return .error .empty
  else if !TypeSegment.balanced significant then return .error (.unbalanced (Token.text tokens))
  else do
    let parts ← splitArrows significant
    classifyEach (Token.text tokens) parts

end DerwLang.Indexed
