/-
**Tokens.**

A token is a piece of source text with its kind and the position of its first character. Lines and columns
count from one, and columns count characters. White space and comments are tokens too (`isTrivia`), so that
the bodies of all tokens make up the source again (`text`).
-/

import DerwLang.Text.Lines

namespace DerwLang

/-- The reserved words. -/
inductive Keyword
  | ifWord
  | thenWord
  | elseWord
  | caseWord
  | ofWord
  | letWord
  | inWord
  | typeWord
  | aliasWord
  | importWord
  | exposingWord
  | asWord
  | defaultWord
deriving DecidableEq, Repr

/-- All reserved words. -/
def Keyword.all : List Keyword :=
  [.ifWord, .thenWord, .elseWord, .caseWord, .ofWord, .letWord, .inWord, .typeWord, .aliasWord,
   .importWord, .exposingWord, .asWord, .defaultWord]

/-- How a reserved word is written. -/
def Keyword.spelling : Keyword → String
  | .ifWord => "if"
  | .thenWord => "then"
  | .elseWord => "else"
  | .caseWord => "case"
  | .ofWord => "of"
  | .letWord => "let"
  | .inWord => "in"
  | .typeWord => "type"
  | .aliasWord => "alias"
  | .importWord => "import"
  | .exposingWord => "exposing"
  | .asWord => "as"
  | .defaultWord => "default"

/-- The label of a reserved word in a token listing. -/
def Keyword.label : Keyword → String
  | .ifWord => "If"
  | .thenWord => "Then"
  | .elseWord => "Else"
  | .caseWord => "Case"
  | .ofWord => "Of"
  | .letWord => "Let"
  | .inWord => "In"
  | .typeWord => "Type"
  | .aliasWord => "Alias"
  | .importWord => "Import"
  | .exposingWord => "Exposing"
  | .asWord => "As"
  | .defaultWord => "Default"

/-- The reserved word with the given spelling. -/
def Keyword.ofSpelling? (spelling : String) : Option Keyword :=
  Keyword.all.find? fun keyword => keyword.spelling == spelling

/-- The operator signs. -/
inductive Sign
  | less
  | lessEqual
  | greater
  | greaterEqual
  | equal
  | notEqual
  | minus
  | plus
  | star
  | slash
  | pipeRight
  | pipeLeft
  | and
  | or
  | cons
  | range
deriving DecidableEq, Repr

/-- How an operator sign is written. -/
def Sign.symbol : Sign → String
  | .less => "<"
  | .lessEqual => "<="
  | .greater => ">"
  | .greaterEqual => ">="
  | .equal => "=="
  | .notEqual => "!="
  | .minus => "-"
  | .plus => "+"
  | .star => "*"
  | .slash => "/"
  | .pipeRight => "|>"
  | .pipeLeft => "<|"
  | .and => "&&"
  | .or => "||"
  | .cons => "::"
  | .range => ".."

/-- The label of an operator sign in a token listing. -/
def Sign.label : Sign → String
  | .less => "Less"
  | .lessEqual => "LessEqual"
  | .greater => "Greater"
  | .greaterEqual => "GreaterEqual"
  | .equal => "Equal"
  | .notEqual => "NotEqual"
  | .minus => "Minus"
  | .plus => "Plus"
  | .star => "Star"
  | .slash => "Slash"
  | .pipeRight => "PipeRight"
  | .pipeLeft => "PipeLeft"
  | .and => "And"
  | .or => "Or"
  | .cons => "Cons"
  | .range => "Range"

/-- The kinds of token. -/
inductive Token.Kind
  /-- a name, dots included -/
  | identifier
  /-- a number, a boolean or a whole bracketed list -/
  | literal
  /-- a text between double quotes -/
  | string
  /-- a text between backticks -/
  | formatString
  | keyword (word : Keyword)
  | operator (sign : Sign)
  | assign
  | arrow
  | colon
  | comma
  | pipe
  | backslash
  | openBracket
  | closeBracket
  | openCurly
  | closeCurly
  | whitespace
  | comment
  | multilineComment
  /-- text that no rule takes -/
  | unknown
deriving DecidableEq, Repr

/-- The label of a kind in a token listing. -/
def Token.Kind.label : Token.Kind → String
  | .identifier => "Identifier"
  | .literal => "Literal"
  | .string => "String"
  | .formatString => "FormatString"
  | .keyword word => "Keyword(" ++ word.label ++ ")"
  | .operator sign => "Operator(" ++ sign.label ++ ")"
  | .assign => "Assign"
  | .arrow => "Arrow"
  | .colon => "Colon"
  | .comma => "Comma"
  | .pipe => "Pipe"
  | .backslash => "Backslash"
  | .openBracket => "OpenBracket"
  | .closeBracket => "CloseBracket"
  | .openCurly => "OpenCurly"
  | .closeCurly => "CloseCurly"
  | .whitespace => "Whitespace"
  | .comment => "Comment"
  | .multilineComment => "MultilineComment"
  | .unknown => "Unknown"

/-- The fixed spelling of a reserved word or an operator sign. -/
def Token.Kind.spelling? : Token.Kind → Option String
  | .keyword word => some word.spelling
  | .operator sign => some sign.symbol
  | _ => none

/-- How a message names a kind of token. -/
def Token.Kind.describe : Token.Kind → String
  | .identifier => "a name"
  | .literal => "a literal"
  | .string => "a string"
  | .formatString => "a format string"
  | .keyword word => "`" ++ word.spelling ++ "`"
  | .operator sign => "`" ++ sign.symbol ++ "`"
  | .assign => "`=`"
  | .arrow => "`->`"
  | .colon => "`:`"
  | .comma => "`,`"
  | .pipe => "`|`"
  | .backslash => "`\\`"
  | .openBracket => "`(`"
  | .closeBracket => "`)`"
  | .openCurly => "`\x7b`"
  | .closeCurly => "`\x7d`"
  | .whitespace => "whitespace"
  | .comment | .multilineComment => "a comment"
  | .unknown => "unrecognised text"

/-- Comments of either form. -/
def Token.Kind.isComment : Token.Kind → Bool
  | .comment | .multilineComment => true
  | _ => false

/-- White space and comments, which the grammar does not see. -/
def Token.Kind.isTrivia (kind : Token.Kind) : Bool :=
  kind == .whitespace || kind.isComment

/-- A piece of source text, its kind, and where it starts. -/
structure Token where
  kind : Token.Kind
  body : String
  line : Nat
  column : Nat
deriving DecidableEq, Repr

namespace Token

/-- White space or a comment. -/
def isTrivia (token : Token) : Bool :=
  token.kind.isTrivia

/-- The line on which the token's text ends. -/
def endLine (token : Token) : Nat :=
  token.line + token.body.toList.count '\n'

/-- The tokens that the grammar sees. -/
def significant (tokens : List Token) : List Token :=
  tokens.filter fun token => !token.isTrivia

theorem of_mem_significant {token : Token} {tokens : List Token} (member : token ∈ significant tokens) : token ∈ tokens :=
  (List.mem_filter.mp member).1

/-- The text that the tokens make up. -/
def text (tokens : List Token) : String :=
  String.join (tokens.map Token.body)

/-- A line feed lies between the first token and the second. -/
def startsLineAfter (token previous : Token) : Bool :=
  previous.endLine < token.line

end Token

/-- A reserved word is found by its spelling. -/
theorem Keyword.ofSpelling?_spelling (keyword : Keyword) :
    Keyword.ofSpelling? keyword.spelling = some keyword := by
  cases keyword <;> decide

end DerwLang
