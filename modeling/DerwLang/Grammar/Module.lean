/-
**Reading modules.**

A source is cut into declarations by layout alone, and each of them is read on its own: one that cannot be
read leaves an error and does not keep the others from being read. Comments between declarations are kept,
comments within them are not.
-/

import DerwLang.Grammar.Declaration
import DerwLang.Syntax.Module

namespace DerwLang

namespace Grammar

/-- The declaration that some tokens make, comments among them; none when they are but comments that share a
line. -/
def blockOfTokens (tokens : List Token) : Parsed (Option Block) :=
  let grammatical := Token.significant tokens
  let read : Parsed (Option Block) :=
    if grammatical.isEmpty then .ok none else some <$> block ⟨lineOf grammatical, grammatical⟩
  match tokens with
  | [token] =>
    match token.kind with
    | .comment => .ok (some (.comment token.body))
    | .multilineComment => .ok (some (.multilineComment token.body))
    | _ => read
  | _ => read

/-- The tokens of each declaration of a source, comments included. -/
def blockTokens (source : String) : List (List Token) :=
  let tokens := (tokenize source).filter fun token => token.kind != .whitespace
  (splitBlocks ⟨1, tokens⟩).map Window.tokens

/-- What each declaration of a source reads as. -/
def readBlocks (source : String) : List (Parsed (Option Block)) :=
  (blockTokens source).map blockOfTokens

/-- The declaration that was read, if any. -/
def blockOf? : Parsed (Option Block) → Option Block
  | .ok block => block
  | .error _ => none

/-- The error that was met, if any. -/
def errorOf? : Parsed (Option Block) → Option ParseError
  | .ok _ => none
  | .error error => some error

end Grammar

open Grammar

/-- The module that a source declares. -/
def parseModule (source name : String) : Module :=
  let read := readBlocks source
  ⟨name, read.filterMap blockOf?, read.filterMap errorOf?⟩

/-- The module that a source declares, under the name of a main module. -/
def parse (source : String) : Module :=
  parseModule source "Main"

/-- The single expression that a source holds. -/
def parseExpression (source : String) : Parsed Expression :=
  let tokens := Token.significant (tokenize source)
  expression ⟨lineOf tokens, tokens⟩

end DerwLang
