/-
**From text to tokens, byte by byte.**

A scanner stands at a byte of its text. It looks at the characters that come next, goes on by one of them, and takes what lies
between two of its places as the text of a token. Loops look ahead before they go on, and none goes on longer than the text.
-/

import DerwLang.Indexed.Access
import DerwLang.Token.Lexer

namespace DerwLang.Indexed

/-- A text, the number of its bytes that are read, and the place in the source. -/
structure Scanner where
  text : List Char
  offset : Nat
  position : Position

namespace Scanner

/-- What is still to be read. -/
def ahead (scanner : Scanner) : Checked (List Char) :=
  Checked.charsFrom scanner.text scanner.offset

/-- The next character. -/
def peek (scanner : Scanner) : Checked (Option Char) := do
  let ahead ← scanner.ahead
  return ahead.head?

/-- The character after the next one. -/
def peekNext (scanner : Scanner) : Checked (Option Char) := do
  let ahead ← scanner.ahead
  return ahead.tail.head?

/-- The scanner after the next character. -/
def advance (scanner : Scanner) : Checked Scanner := do
  match ← scanner.peek with
  | none => return scanner
  | some c => return ⟨scanner.text, scanner.offset + c.utf8Size, scanner.position.step c⟩

/-- The scanner after some characters. -/
def advanceBy : Nat → Scanner → Checked Scanner
  | 0, scanner => .ok scanner
  | count + 1, scanner => do
    let after ← scanner.advance
    advanceBy count after

/-- More rounds than a loop over the text can take. -/
def rounds (scanner : Scanner) : Nat :=
  scanner.text.length + 1

/-- The token between two places of the scanner. -/
def finish (scanner : Scanner) (kind : Token.Kind) (start : Scanner) : Checked Token := do
  let own ← Checked.chars scanner.text start.offset scanner.offset
  return ⟨kind, String.ofList own, start.position.line, start.position.column⟩

/-- The token that ends where the scanner goes on. -/
def token (kind : Token.Kind) (start ending : Scanner) : Checked (Token × Scanner) := do
  let token ← ending.finish kind start
  return (token, ending)

/-- A token of as many characters. -/
def fixed (kind : Token.Kind) (count : Nat) (scanner : Scanner) : Checked (Token × Scanner) := do
  let ending ← scanner.advanceBy count
  token kind scanner ending

/-! ## Loops -/

/-- The scanner after the characters ahead that satisfy the test. -/
def advanceWhile (test : Char → Bool) : Nat → Scanner → Checked Scanner
  | 0, _ => .error .endless
  | round + 1, scanner => do
    match ← scanner.peek with
    | none => return scanner
    | some c =>
      if test c then
        let after ← scanner.advance
        advanceWhile test round after
      else return scanner

/-- The scanner at a byte further on. -/
def advanceTo (target : Nat) : Nat → Scanner → Checked Scanner
  | 0, _ => .error .endless
  | round + 1, scanner =>
    if scanner.offset < target then do
      let after ← scanner.advance
      advanceTo target round after
    else .ok scanner

/-- Whether a quoted text ends, and the scanner after it. -/
def throughQuote (quote : Char) : Nat → Scanner → Checked (Bool × Scanner)
  | 0, _ => .error .endless
  | round + 1, scanner => do
    match ← scanner.peek with
    | none => return (false, scanner)
    | some c =>
      if c == '\\' then
        let escape ← scanner.advance
        match ← escape.peek with
        | none => throughQuote quote round escape
        | some _ =>
          let after ← escape.advance
          throughQuote quote round after
      else if c == quote then
        let after ← scanner.advance
        return (true, after)
      else if c == '\n' && quote == '"' then return (false, scanner)
      else
        let after ← scanner.advance
        throughQuote quote round after

/-- The byte after the square bracket that closes the first one, `depth` of them being open, perhaps within a quote and after
a backslash there. -/
def closingByte : Nat → Option Char → Bool → Nat → List Char → Checked (Option Nat)
  | _, _, _, _, [] => .ok none
  | depth, some quote, escaped, byte, c :: rest =>
    if escaped then closingByte depth (some quote) false (byte + c.utf8Size) rest
    else if c == '\\' then closingByte depth (some quote) true (byte + c.utf8Size) rest
    else if c == quote then closingByte depth none false (byte + c.utf8Size) rest
    else closingByte depth (some quote) false (byte + c.utf8Size) rest
  | depth, none, escaped, byte, c :: rest =>
    if c == '"' || c == '\x60' then closingByte depth (some c) escaped (byte + c.utf8Size) rest
    else if c == '[' then closingByte (depth + 1) none escaped (byte + c.utf8Size) rest
    else if c == ']' then do
      let further ← Checked.minus depth 1
      if further == 0 then return some (byte + c.utf8Size)
      else closingByte further none escaped (byte + c.utf8Size) rest
    else closingByte depth none escaped (byte + c.utf8Size) rest

/-- The scanner after the characters that go on with a name. -/
def throughName : Nat → Scanner → Checked Scanner
  | 0, _ => .error .endless
  | round + 1, scanner => do
    match ← scanner.peek with
    | none => return scanner
    | some c =>
      if Text.isAlphanumeric c || c == '_' then
        let after ← scanner.advance
        throughName round after
      else if c == '.' && (← scanner.peekNext).any Lexeme.startsName then
        let after ← scanner.advance
        throughName round after
      else return scanner

/-- Whether a block comment ends, and the scanner after it. -/
def throughComment : Nat → Scanner → Checked (Bool × Scanner)
  | 0, _ => .error .endless
  | round + 1, scanner => do
    match ← scanner.peek with
    | none => return (false, scanner)
    | some _ =>
      if ['-', '\x7d'].isPrefixOf (← scanner.ahead) then
        let after ← scanner.advanceBy 2
        return (true, after)
      else
        let after ← scanner.advance
        throughComment round after

/-! ## Tokens -/

/-- Blanks. -/
def blanks (scanner : Scanner) : Checked (Token × Scanner) := do
  let ending ← scanner.advanceWhile Text.isBlank scanner.rounds
  token .whitespace scanner ending

/-- A number: digits, and a point if digits follow it. -/
def number (scanner : Scanner) : Checked (Token × Scanner) := do
  let whole ← scanner.advanceWhile Char.isDigit scanner.rounds
  if (← whole.peek) == some '.' && (← whole.peekNext).any Char.isDigit then
    let point ← whole.advance
    let ending ← point.advanceWhile Char.isDigit scanner.rounds
    token .literal scanner ending
  else token .literal scanner whole

/-- A name or a reserved word. -/
def name (scanner : Scanner) : Checked (Token × Scanner) := do
  let second ← scanner.advance
  let ending ← second.throughName scanner.rounds
  let word ← Checked.chars scanner.text scanner.offset ending.offset
  token (Lexeme.wordKind (String.ofList word)) scanner ending

/-- A quoted text, unknown if it does not end. -/
def quoted (quote : Char) (kind : Token.Kind) (scanner : Scanner) : Checked (Token × Scanner) := do
  let inside ← scanner.advance
  let (closed, ending) ← inside.throughQuote quote scanner.rounds
  token (if closed then kind else .unknown) scanner ending

/-- A list up to the bracket that closes it, or the bracket alone. -/
def list (scanner : Scanner) : Checked (Token × Scanner) := do
  let ahead ← scanner.ahead
  match ← closingByte 0 none false scanner.offset ahead with
  | some byte =>
    let ending ← scanner.advanceTo byte scanner.rounds
    token .literal scanner ending
  | none => scanner.fixed .unknown 1

/-- A comment up to the end of its line. -/
def comment (scanner : Scanner) : Checked (Token × Scanner) := do
  let ending ← scanner.advanceWhile (· != '\n') scanner.rounds
  token .comment scanner ending

/-- What a minus sign starts. -/
def dash (scanner : Scanner) : Checked (Token × Scanner) := do
  match ← scanner.peekNext with
  | some '-' => scanner.comment
  | some '>' => scanner.fixed .arrow 2
  | _ => scanner.fixed (.operator .minus) 1

/-- What a curly bracket starts: a block comment if a minus sign follows. -/
def curly (scanner : Scanner) : Checked (Token × Scanner) := do
  if (← scanner.peekNext) != some '-' then scanner.fixed .openCurly 1
  else
    let bracket ← scanner.advance
    let inside ← bracket.advance
    let (closed, ending) ← inside.throughComment scanner.rounds
    token (if closed then .multilineComment else .unknown) scanner ending

/-- A sign of two characters, or else of one. -/
def pair (pairs : List (Char × Token.Kind)) (single : Token.Kind) (scanner : Scanner) : Checked (Token × Scanner) := do
  match (← scanner.peekNext).bind fun next => pairs.find? fun pair => pair.1 == next with
  | some (_, kind) => scanner.fixed kind 2
  | none => scanner.fixed single 1

/-- The token that starts with the next character. -/
def lexeme (c : Char) (scanner : Scanner) : Checked (Token × Scanner) :=
  if Text.isBlank c then scanner.blanks
  else if c.isDigit then scanner.number
  else if Lexeme.startsName c then scanner.name
  else
    match c with
    | '"' => scanner.quoted '"' .string
    | '\x60' => scanner.quoted '\x60' .formatString
    | '[' => scanner.list
    | '-' => scanner.dash
    | '\x7b' => scanner.curly
    | '\x7d' => scanner.fixed .closeCurly 1
    | '(' => scanner.fixed .openBracket 1
    | ')' => scanner.fixed .closeBracket 1
    | ',' => scanner.fixed .comma 1
    | '\\' => scanner.fixed .backslash 1
    | ':' => scanner.pair [(':', .operator .cons)] .colon
    | '=' => scanner.pair [('=', .operator .equal)] .assign
    | '!' => scanner.pair [('=', .operator .notEqual)] .unknown
    | '<' => scanner.pair [('=', .operator .lessEqual), ('|', .operator .pipeLeft)] (.operator .less)
    | '>' => scanner.pair [('=', .operator .greaterEqual)] (.operator .greater)
    | '|' => scanner.pair [('>', .operator .pipeRight), ('|', .operator .or)] .pipe
    | '&' => scanner.pair [('&', .operator .and)] .unknown
    | '.' => scanner.pair [('.', .operator .range)] .unknown
    | '+' => scanner.fixed (.operator .plus) 1
    | '*' => scanner.fixed (.operator .star) 1
    | '/' => scanner.fixed (.operator .slash) 1
    | _ => scanner.fixed .unknown 1

/-- The tokens that are left. -/
def tokens : Nat → Scanner → Checked (List Token)
  | 0, _ => .error .endless
  | round + 1, scanner => do
    match ← scanner.peek with
    | none => return []
    | some c =>
      let (token, ending) ← scanner.lexeme c
      let others ← tokens round ending
      return token :: others

end Scanner

/-- The tokens of a text that starts at a line and a column of some source. -/
def tokenizeAt (source : String) (line column : Nat) : Checked (List Token) :=
  let scanner : Scanner := ⟨source.toList, 0, ⟨line, column⟩⟩
  scanner.tokens scanner.rounds

/-- The tokens of a source. -/
def tokenize (source : String) : Checked (List Token) :=
  tokenizeAt source 1 1

end DerwLang.Indexed
