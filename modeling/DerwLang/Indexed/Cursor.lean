/-
**A place in a list of tokens.**

A cursor goes through the tokens between two indices of one list. The token at the cursor is looked up with care; brackets,
reserved words, separators and the starts of lines are found in loops over indices that ask for every token they pass. What is
nested is read by cursors over the same list that stop earlier.
-/

import DerwLang.Grammar.Window
import DerwLang.Indexed.Access

namespace DerwLang.Indexed

/-- A reading that can refuse its text, with accesses that can miss. -/
abbrev Guarded := ExceptT ParseError Checked

/-- A reading that makes an access. -/
def access {α : Type} (checked : Checked α) : Guarded α :=
  ExceptT.mk (Except.ok <$> checked)

/-- A reading with something wrong. -/
def Guarded.fault {α : Type} (fault : Fault) : Guarded α :=
  access (.error fault)

/-- A reading without any access. -/
def Guarded.ofParsed {α : Type} (parsed : Parsed α) : Guarded α :=
  ExceptT.mk (.ok parsed)

/-- A text that is refused. -/
def Guarded.refuse {α : Type} (cause : ParseError.Cause) (line : Nat) : Guarded α :=
  Guarded.ofParsed (.error ⟨cause, line⟩)

/-- A list of tokens, the index of the next one, and the index where to stop. -/
structure Cursor where
  tokens : List Token
  index : Nat
  stop : Nat

namespace Cursor

/-- The cursor in front of all tokens. -/
def start (tokens : List Token) : Cursor :=
  ⟨tokens, 0, tokens.length⟩

/-- The cursor from one index to another one. -/
def between (cursor : Cursor) (index stop : Nat) : Cursor :=
  ⟨cursor.tokens, index, stop⟩

/-- The cursor at another index. -/
def moved (cursor : Cursor) (index : Nat) : Cursor :=
  ⟨cursor.tokens, index, cursor.stop⟩

/-- The cursor after the next token. -/
def next (cursor : Cursor) : Cursor :=
  cursor.moved (cursor.index + 1)

/-- More rounds than a loop over the tokens ahead can take. -/
def rounds (cursor : Cursor) : Nat :=
  cursor.stop - cursor.index + 1

/-- The token so many places ahead, unless the cursor stops before it. -/
def peekAt (cursor : Cursor) (offset : Nat) : Option Token :=
  if cursor.index + offset < cursor.stop then cursor.tokens[cursor.index + offset]? else none

/-- The next token. -/
def peek (cursor : Cursor) : Option Token :=
  cursor.peekAt 0

/-- The kind of the next token. -/
def nextKind (cursor : Cursor) : Option Token.Kind :=
  cursor.peek.map Token.kind

/-- The body of the next token. -/
def found (cursor : Cursor) : Found :=
  cursor.peek.map Token.body

/-- The line to blame: that of the next token, or else of the one before it. -/
def line (cursor : Cursor) : Nat :=
  ((cursor.peek.or cursor.tokens[min cursor.index cursor.stop - 1]?).map Token.line).getD 1

/-- The text is refused at this place. -/
def refuse {α : Type} (cursor : Cursor) (cause : ParseError.Cause) : Guarded α :=
  Guarded.refuse cause cursor.line

/-- Nothing may be left. -/
def expectEnd (cursor : Cursor) (construct : Construct) : Guarded Unit :=
  match cursor.peek with
  | none => return ()
  | some token => cursor.refuse (.leftOver token.body construct)

/-- A token of the given kind has to come next. -/
def expect (cursor : Cursor) (kind : Token.Kind) (place : Requirement) : Guarded (Token × Cursor) :=
  match cursor.peek with
  | none => cursor.refuse (.required kind place none)
  | some token =>
    if token.kind == kind then return (token, cursor.next)
    else cursor.refuse (.required kind place (some token.body))

/-- The bodies of the names ahead, and the cursor after them. -/
def names : Nat → Cursor → Guarded (List String × Cursor)
  | 0, _ => .fault .endless
  | round + 1, cursor =>
    match cursor.peek with
    | none => return ([], cursor)
    | some token =>
      if token.kind == .identifier then do
        let (others, ending) ← names round cursor.next
        return (token.body :: others, ending)
      else return ([], cursor)

/-- The bodies of the names ahead, and the cursor after them. -/
def takeNames (cursor : Cursor) : Guarded (List String × Cursor) :=
  names cursor.rounds cursor

end Cursor

/-! ## Loops over indices -/

/-- The token at an index starts a line. -/
def startsLine (tokens : List Token) (index : Nat) : Checked Bool :=
  if index == 0 then return true
  else do
    let before ← Checked.minus index 1
    let previous ← Checked.item tokens before
    let token ← Checked.item tokens index
    return token.startsLineAfter previous

/-- The bracket that closes one of the `depth` that are open. -/
def closingFrom (tokens : List Token) (opening closing : Token.Kind) : (count depth index : Nat) → Checked (Option Nat)
  | 0, _, _ => return none
  | count + 1, depth, index => do
    let token ← Checked.item tokens index
    if token.kind == opening then closingFrom tokens opening closing count (depth + 1) (index + 1)
    else if token.kind == closing then
      let further ← Checked.minus depth 1
      if further == 0 then return some index else closingFrom tokens opening closing count further (index + 1)
    else closingFrom tokens opening closing count depth (index + 1)

/-- The bracket that closes the one at an index, in front of where the cursor stops. -/
def closing (cursor : Cursor) (index : Nat) : Guarded Nat := do
  let opener ← access (Checked.item cursor.tokens index)
  let (opening, closing) : Token.Kind × Token.Kind :=
    if opener.kind == .openCurly then (.openCurly, .closeCurly) else (.openBracket, .closeBracket)
  match ← access (closingFrom cursor.tokens opening closing (cursor.stop - index) 0 index) with
  | some close => return close
  | none => .refuse (.unclosed opening closing) opener.line

/-- The indices between which the parts stand that a separator outside brackets makes, `depth` brackets being open; the part at
hand has started at `start`. -/
def partsFrom (tokens : List Token) (separator : Token.Kind) : (count depth start index : Nat) → Checked (List (Nat × Nat))
  | 0, _, start, index => return [(start, index)]
  | count + 1, depth, start, index => do
    let token ← Checked.item tokens index
    match token.kind with
    | .openBracket | .openCurly => partsFrom tokens separator count (depth + 1) start (index + 1)
    | .closeBracket | .closeCurly => partsFrom tokens separator count (depth - 1) start (index + 1)
    | kind =>
      if kind == separator && depth == 0 then
        let others ← partsFrom tokens separator count depth (index + 1) (index + 1)
        return (start, index) :: others
      else partsFrom tokens separator count depth start (index + 1)

/-- The indices between which the parts of a part stand. -/
def parts (tokens : List Token) (start stop : Nat) (separator : Token.Kind) : Checked (List (Nat × Nat)) :=
  partsFrom tokens separator (stop - start) 0 start start

/-- The first reserved word that is meant. Nested constructs start with `opener` and are over at `closer`, or where they have
the word themselves. -/
def keywordFrom (tokens : List Token) (target opener : Keyword) (closer? : Option Keyword) :
    (count depth index : Nat) → Checked (Option Nat)
  | 0, _, _ => return none
  | count + 1, depth, index => do
    let token ← Checked.item tokens index
    match token.kind with
    | .keyword word =>
      if word == target && depth == 0 then return some index
      else if word == opener then keywordFrom tokens target opener closer? count (depth + 1) (index + 1)
      else if some word == closer? || (closer?.isNone && word == target) then
        keywordFrom tokens target opener closer? count (depth - 1) (index + 1)
      else keywordFrom tokens target opener closer? count depth (index + 1)
    | _ => keywordFrom tokens target opener closer? count depth (index + 1)

/-- The first reserved word that is meant, from an index on. -/
def findKeyword (cursor : Cursor) (index : Nat) (target opener : Keyword) (closer? : Option Keyword) : Checked (Option Nat) :=
  keywordFrom cursor.tokens target opener closer? (cursor.stop - index) 0 index

/-- The first token of a kind. -/
def findKind (cursor : Cursor) (kind : Token.Kind) : Checked (Option Nat) :=
  Checked.firstIndex (fun index => do
    let token ← Checked.item cursor.tokens index
    return token.kind == kind) (cursor.stop - cursor.index) cursor.index

end DerwLang.Indexed
