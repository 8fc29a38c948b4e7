/-
**From text to tokens.**

The first character of what is left decides the kind of the next token, and `Lexeme.classify` says how many
further characters belong to it. Since a token is a character and what it takes of the rest, no token is empty
and nothing is lost:

* `Lexeme.chars_scan`: the characters of the lexemes are the characters of the source;
* `Lexeme.chars_ne_nil`: every lexeme has a character.

Positions are worked out from the text of the tokens alone (`Position.after`).
-/

import DerwLang.Text.Class
import DerwLang.Token.Basic

namespace DerwLang

/-! ## How far a token reaches -/

/-- A kind and the characters of a token, without its position. -/
structure Lexeme where
  kind : Token.Kind
  chars : List Char
deriving DecidableEq, Repr

namespace Lexeme

/-- A letter or an underscore. -/
def startsName (c : Char) : Bool :=
  Text.isAlphabetic c || c == '_'

/-- The number of characters that go on with a name; a dot does if a further name follows it. -/
def nameLength : List Char → Nat
  | [] => 0
  | c :: rest =>
    if Text.isAlphanumeric c || c == '_' then nameLength rest + 1
    else if c == '.' && (rest.head?.any startsName) then nameLength rest + 1
    else 0

/-- The number of digits ahead. -/
def digitsLength (chars : List Char) : Nat :=
  (chars.takeWhile Char.isDigit).length

/-- The number of characters that go on with a number: digits, and a point if digits follow it. -/
def numberLength (chars : List Char) : Nat :=
  let whole := digitsLength chars
  match chars.drop whole with
  | '.' :: decimals =>
    match digitsLength decimals with
    | 0 => whole
    | count + 1 => whole + 1 + (count + 1)
  | _ => whole

/-- Whether the quoted text ends, and the number of its characters after the opening quote. A backslash takes
the next character with it, and text between double quotes ends with its line. -/
def quotedLength (quote : Char) : List Char → Bool × Nat
  | [] => (false, 0)
  | ['\\'] => (false, 1)
  | '\\' :: _ :: rest =>
    let (closed, length) := quotedLength quote rest
    (closed, length + 2)
  | c :: rest =>
    if c == quote then (true, 1)
    else if c == '\n' && quote == '"' then (false, 0)
    else
      let (closed, length) := quotedLength quote rest
      (closed, length + 1)

/-- The number of characters up to the square bracket that closes the open one, with `depth` further ones open
and perhaps within a quote. -/
def listLength : Nat → Option Char → List Char → Option Nat
  | _, _, [] => none
  | depth, some quote, '\\' :: _ :: rest => (listLength depth (some quote) rest).map (· + 2)
  | depth, some quote, c :: rest =>
    (listLength depth (if c == quote then none else some quote) rest).map (· + 1)
  | depth, none, '[' :: rest => (listLength (depth + 1) none rest).map (· + 1)
  | 0, none, ']' :: _ => some 1
  | depth + 1, none, ']' :: rest => (listLength depth none rest).map (· + 1)
  | depth, none, c :: rest =>
    (listLength depth (if c == '"' || c == '\x60' then some c else none) rest).map (· + 1)

/-- The number of characters up to the end of a block comment. -/
def blockCommentLength : List Char → Option Nat
  | [] => none
  | '-' :: '\x7d' :: _ => some 2
  | _ :: rest => (blockCommentLength rest).map (· + 1)

/-- The kind of a word: reserved, a boolean, or a name. -/
def wordKind (word : String) : Token.Kind :=
  match Keyword.ofSpelling? word with
  | some keyword => .keyword keyword
  | none => if word == "true" || word == "false" then .literal else .identifier

/-! ## Kinds -/

/-- The kind of the token that starts with a character, and how many characters it takes of the rest. -/
def classify (c : Char) (rest : List Char) : Token.Kind × Nat :=
  if Text.isBlank c then (.whitespace, (rest.takeWhile Text.isBlank).length)
  else if c.isDigit then (.literal, numberLength rest)
  else if startsName c then
    (wordKind (String.ofList (c :: rest.take (nameLength rest))), nameLength rest)
  else
    match c, rest with
    | '"', rest =>
      match quotedLength '"' rest with
      | (true, length) => (.string, length)
      | (false, length) => (.unknown, length)
    | '\x60', rest =>
      match quotedLength '\x60' rest with
      | (true, length) => (.formatString, length)
      | (false, length) => (.unknown, length)
    | '[', rest =>
      match listLength 0 none rest with
      | some length => (.literal, length)
      | none => (.unknown, 0)
    | '-', '-' :: rest => (.comment, (rest.takeWhile (· != '\n')).length + 1)
    | '-', '>' :: _ => (.arrow, 1)
    | '-', _ => (.operator .minus, 0)
    | '\x7b', '-' :: rest =>
      match blockCommentLength rest with
      | some length => (.multilineComment, length + 1)
      | none => (.unknown, rest.length + 1)
    | '\x7b', _ => (.openCurly, 0)
    | '\x7d', _ => (.closeCurly, 0)
    | '(', _ => (.openBracket, 0)
    | ')', _ => (.closeBracket, 0)
    | ',', _ => (.comma, 0)
    | '\\', _ => (.backslash, 0)
    | ':', ':' :: _ => (.operator .cons, 1)
    | ':', _ => (.colon, 0)
    | '=', '=' :: _ => (.operator .equal, 1)
    | '=', _ => (.assign, 0)
    | '!', '=' :: _ => (.operator .notEqual, 1)
    | '<', '=' :: _ => (.operator .lessEqual, 1)
    | '<', '|' :: _ => (.operator .pipeLeft, 1)
    | '<', _ => (.operator .less, 0)
    | '>', '=' :: _ => (.operator .greaterEqual, 1)
    | '>', _ => (.operator .greater, 0)
    | '|', '>' :: _ => (.operator .pipeRight, 1)
    | '|', '|' :: _ => (.operator .or, 1)
    | '|', _ => (.pipe, 0)
    | '&', '&' :: _ => (.operator .and, 1)
    | '.', '.' :: _ => (.operator .range, 1)
    | '+', _ => (.operator .plus, 0)
    | '*', _ => (.operator .star, 0)
    | '/', _ => (.operator .slash, 0)
    | _, _ => (.unknown, 0)

/-- The lexemes of a text, the first `skipped` characters of which belong to a lexeme already found. -/
def scanAfter : Nat → List Char → List Lexeme
  | _, [] => []
  | skipped + 1, _ :: rest => scanAfter skipped rest
  | 0, c :: rest =>
    let next := classify c rest
    ⟨next.1, c :: rest.take next.2⟩ :: scanAfter next.2 rest

/-- The lexemes of a text. -/
def scan (chars : List Char) : List Lexeme :=
  scanAfter 0 chars

/-- Skipped characters are as if they were not there. -/
theorem scanAfter_eq_scan (skipped : Nat) (chars : List Char) :
    scanAfter skipped chars = scan (chars.drop skipped) := by
  induction chars generalizing skipped with
  | nil => cases skipped <;> simp [scan, scanAfter]
  | cons c rest step =>
    cases skipped with
    | zero => rfl
    | succ skipped => simp [scanAfter, step]

/-- A text is its first lexeme and the lexemes of the rest. -/
theorem scan_cons (c : Char) (rest : List Char) :
    scan (c :: rest) =
      ⟨(classify c rest).1, c :: rest.take (classify c rest).2⟩ ::
        scan (rest.drop (classify c rest).2) := by
  rw [scan, scanAfter, scanAfter_eq_scan]

/-- The characters of the lexemes are the characters of the source. -/
theorem chars_scan (chars : List Char) : (scan chars).flatMap Lexeme.chars = chars := by
  induction length : chars.length using Nat.strongRecOn generalizing chars with
  | _ size step =>
    cases chars with
    | nil => rfl
    | cons c rest =>
      have shorter : (rest.drop (classify c rest).2).length < size := by
        simp only [List.length_cons] at length
        simp only [List.length_drop]
        omega
      rw [scan_cons, List.flatMap_cons, step _ shorter _ rfl]
      simp

/-- Every lexeme has a character. -/
theorem chars_ne_nil (skipped : Nat) (chars : List Char) :
    ∀ lexeme ∈ scanAfter skipped chars, lexeme.chars ≠ [] := by
  induction chars generalizing skipped with
  | nil => cases skipped <;> simp [scanAfter]
  | cons c rest step =>
    cases skipped with
    | zero =>
      intro lexeme found
      simp only [scanAfter, List.mem_cons] at found
      rcases found with rfl | later
      · simp
      · exact step _ lexeme later
    | succ skipped => exact step skipped

end Lexeme

/-! ## Positions -/

/-- A line and a column of the source. -/
structure Position where
  line : Nat
  column : Nat
deriving DecidableEq, Repr

/-- The position after one more character. -/
def Position.step (position : Position) (c : Char) : Position :=
  if c == '\n' then ⟨position.line + 1, 1⟩ else ⟨position.line, position.column + 1⟩

/-- The position after the characters. -/
def Position.after (position : Position) (chars : List Char) : Position :=
  chars.foldl Position.step position

/-- Lexemes as tokens, the first of them at the position. -/
def Token.place : Position → List Lexeme → List Token
  | _, [] => []
  | position, lexeme :: more =>
    ⟨lexeme.kind, String.ofList lexeme.chars, position.line, position.column⟩ ::
      Token.place (position.after lexeme.chars) more

/-- The tokens of a fragment that starts at a line and a column of some source. -/
def tokenizeAt (source : String) (line column : Nat) : List Token :=
  Token.place ⟨line, column⟩ (Lexeme.scan source.toList)

/-- The tokens of a source. -/
def tokenize (source : String) : List Token :=
  tokenizeAt source 1 1

/-! ## Reading on -/

/-- What is still to be read of a source. -/
structure Lexer where
  input : List Char
  position : Position

/-- A lexer at the start of a fragment. -/
def Lexer.startingAt (source : String) (line column : Nat) : Lexer :=
  ⟨source.toList, ⟨line, column⟩⟩

/-- All tokens that are left, and the lexer after them. -/
def Lexer.tokenize (lexer : Lexer) : List Token × Lexer :=
  (Token.place lexer.position (Lexeme.scan lexer.input),
    ⟨[], lexer.position.after lexer.input⟩)

end DerwLang
