/-
**Windows of tokens.**

Every construct is read from a window: its tokens, and the line of the token before them, which takes the
blame when the tokens run out. Nested constructs stand in smaller windows, and this module cuts them out:

* `splitClose`: at the bracket that closes an open one;
* `splitKeyword`: at a reserved word, past nested constructs that hold the same word;
* `splitOutside`: at separators outside brackets;
* `splitStarts`: at tokens that start a line.

No cut makes tokens up: `splitClose_eq`, `splitKeyword_eq`, `splitKind_eq` and `splitDefinition_eq` say that the
pieces are the tokens.
-/

import DerwLang.Grammar.Error

namespace DerwLang

/-- The tokens of one construct, and the line of the token before them. -/
structure Window where
  before : Nat
  tokens : List Token
deriving DecidableEq, Repr

namespace Window

/-- The line to blame: that of the next token, or else of the one before it. -/
def line (window : Window) : Nat :=
  match window.tokens with
  | [] => window.before
  | token :: _ => token.line

/-- The body of the next token. -/
def found (window : Window) : Found :=
  window.tokens.head?.map Token.body

/-- The kind of the next token. -/
def nextKind (window : Window) : Option Token.Kind :=
  window.tokens.head?.map Token.kind

/-- An error at this place. -/
def error {α : Type} (window : Window) (cause : ParseError.Cause) : Parsed α :=
  .error ⟨cause, window.line⟩

/-- The window after all its tokens. -/
def finished (window : Window) : Window :=
  ⟨(window.tokens.getLast?.map Token.line).getD window.before, []⟩

/-- Nothing may be left. -/
def expectEnd (window : Window) (construct : Construct) : Parsed Unit :=
  match window.tokens with
  | [] => .ok ()
  | token :: _ => window.error (.leftOver token.body construct)

/-- A token of the given kind has to come next. -/
def expect (window : Window) (kind : Token.Kind) (place : Requirement) : Parsed (Token × Window) :=
  match window.tokens with
  | [] => window.error (.required kind place none)
  | token :: rest =>
    if token.kind == kind then .ok (token, ⟨token.line, rest⟩)
    else window.error (.required kind place (some token.body))

/-- The bodies of the names ahead, and the window after them. -/
def namesFrom : Nat → List Token → List String × Window
  | before, [] => ([], ⟨before, []⟩)
  | before, token :: rest =>
    if token.kind == .identifier then
      let names := namesFrom token.line rest
      (token.body :: names.1, names.2)
    else ([], ⟨before, token :: rest⟩)

/-- The bodies of the names ahead, and the window after them. -/
def takeNames (window : Window) : List String × Window :=
  namesFrom window.before window.tokens

end Window

/-! ## Measures -/

/-- The length of a token's body, one at least. -/
def Token.weight (token : Token) : Nat :=
  max 1 token.body.length

/-- The sum of the weights of the tokens. It bounds how deeply constructs nest: what is nested in a window lacks
one of its tokens at least, and the interior of a list literal is shorter than the literal. -/
def Window.weight (window : Window) : Nat :=
  window.tokens.foldr (fun token total => token.weight + total) 0

/-! ## Cutting at one token -/

/-- The tokens before and after one of them. -/
structure Cut where
  inside : List Token
  token : Token
  after : List Token
deriving DecidableEq, Repr

/-- The cut with one more token in front. -/
def Cut.push (token : Token) (cut : Cut) : Cut :=
  { cut with inside := token :: cut.inside }

/-- The tokens that are cut. -/
def Cut.all (cut : Cut) : List Token :=
  cut.inside ++ cut.token :: cut.after

theorem Cut.all_push (token : Token) (cut : Cut) : (cut.push token).all = token :: cut.all := rfl

namespace Token

/-- The tokens cut at the closing bracket of the one that is open, with `depth` further ones open. -/
def splitClose (opening closing : Token.Kind) : Nat → List Token → Option Cut
  | _, [] => none
  | depth, token :: rest =>
    if token.kind == opening then (splitClose opening closing (depth + 1) rest).map (Cut.push token)
    else if token.kind == closing then
      match depth with
      | 0 => some ⟨[], token, rest⟩
      | depth + 1 => (splitClose opening closing depth rest).map (Cut.push token)
    else (splitClose opening closing depth rest).map (Cut.push token)

/-- The tokens cut at a reserved word. Nested constructs start with `opener` and are over at `closer`, and `depth`
of them are open. -/
def splitKeyword (target opener closer : Keyword) : Nat → List Token → Option Cut
  | _, [] => none
  | depth, token :: rest =>
    match token.kind with
    | .keyword word =>
      if word == target && depth == 0 then some ⟨[], token, rest⟩
      else
        let inner :=
          if word == opener then depth + 1 else if word == closer then depth - 1 else depth
        (splitKeyword target opener closer inner rest).map (Cut.push token)
    | _ => (splitKeyword target opener closer depth rest).map (Cut.push token)

/-- The tokens cut at the first one of a kind. -/
def splitKind (kind : Token.Kind) : List Token → Option Cut
  | [] => none
  | token :: rest =>
    if token.kind == kind then some ⟨[], token, rest⟩
    else (splitKind kind rest).map (Cut.push token)

/-- The tokens cut at the first name with the given body that starts a line, `previous` being the token before
them. -/
def splitDefinition (name : String) : Token → List Token → Option Cut
  | _, [] => none
  | previous, token :: rest =>
    if token.kind == .identifier && token.body == name && token.startsLineAfter previous then
      some ⟨[], token, rest⟩
    else (splitDefinition name token rest).map (Cut.push token)

/-- A cut at a closing bracket is a cut of the tokens. -/
theorem splitClose_eq {opening closing : Token.Kind} {depth : Nat} {tokens : List Token} {cut : Cut}
    (found : splitClose opening closing depth tokens = some cut) : cut.all = tokens := by
  fun_induction splitClose opening closing depth tokens generalizing cut <;>
    simp_all [Cut.all]
  all_goals
    obtain ⟨inner, smaller, rfl⟩ := found
    simp_all [Cut.push]

/-- A cut at a reserved word is a cut of the tokens. -/
theorem splitKeyword_eq {target opener closer : Keyword} {depth : Nat} {tokens : List Token}
    {cut : Cut} (found : splitKeyword target opener closer depth tokens = some cut) :
    cut.all = tokens := by
  fun_induction splitKeyword target opener closer depth tokens generalizing cut <;>
    simp_all [Cut.all]
  all_goals
    obtain ⟨inner, smaller, rfl⟩ := found
    simp_all [Cut.push]

/-- A cut at a kind is a cut of the tokens. -/
theorem splitKind_eq {kind : Token.Kind} {tokens : List Token} {cut : Cut}
    (found : splitKind kind tokens = some cut) : cut.all = tokens := by
  fun_induction splitKind kind tokens generalizing cut <;> simp_all [Cut.all]
  all_goals
    obtain ⟨inner, smaller, rfl⟩ := found
    simp_all [Cut.push]

/-- A cut at a definition is a cut of the tokens. -/
theorem splitDefinition_eq {name : String} {previous : Token} {tokens : List Token} {cut : Cut}
    (found : splitDefinition name previous tokens = some cut) : cut.all = tokens := by
  fun_induction splitDefinition name previous tokens generalizing cut <;> simp_all [Cut.all]
  all_goals
    obtain ⟨inner, smaller, rfl⟩ := found
    simp_all [Cut.push]

end Token

/-! ## Cutting into several windows -/

namespace Window

/-- The window with one more token in front. -/
def push (token : Token) (window : Window) : Window :=
  { window with tokens := token :: window.tokens }

/-- One more token in front of the first window. -/
def pushFirst (before : Nat) (token : Token) : List Window → List Window
  | [] => [⟨before, [token]⟩]
  | window :: more => window.push token :: more

/-- The windows between separators outside round and curly brackets, `depth` brackets being open and `before`
being the line of the token before. -/
def splitFrom (separator : Token.Kind) : Nat → Nat → List Token → List Window
  | _, before, [] => [⟨before, []⟩]
  | depth, before, token :: rest =>
    if token.kind == separator && depth == 0 then
      ⟨before, []⟩ :: splitFrom separator 0 token.line rest
    else
      let inner :=
        match token.kind with
        | .openBracket | .openCurly => depth + 1
        | .closeBracket | .closeCurly => depth - 1
        | _ => depth
      pushFirst before token (splitFrom separator inner before rest)

/-- The windows between separators outside brackets. -/
def splitOutside (window : Window) (separator : Token.Kind) : List Window :=
  splitFrom separator 0 window.before window.tokens

/-- The windows that start with the first token and with every later one that starts a line at or left of a
column. -/
def splitStarts (column : Nat) : Nat → Token → List Token → List Window
  | before, token, [] => [⟨before, [token]⟩]
  | before, token, next :: rest =>
    if next.startsLineAfter token && next.column ≤ column then
      ⟨before, [token]⟩ :: splitStarts column token.line next rest
    else pushFirst before token (splitStarts column before next rest)

end Window

end DerwLang
