/-
**Elm patterns for lists.**

A pattern `first :: second :: rest` has operands: a name, `_`, a text, `[]`, or a tag with what it is applied to. Its text
is read by its words (`consPattern?`); of an application only what patterns for lists need is read, a tag in round brackets
with `_` or with the names of some fields.

`matchCons` says what the operands match: each but the last takes one element, and the last all that are left.
-/

import DerwLang.Elm.Layout
import DerwLang.Grammar.Pattern
import DerwLang.Proofs.ListPattern.Matching
import DerwLang.Token.Lexer

namespace DerwLang.Elm

open Ecma (Reading Value)

/-- What stands between the `::` of a pattern. -/
inductive Operand
  /-- `_` -/
  | anything
  | name (name : String)
  | text (text : String)
  | emptyList
  /-- a tag with the names of fields, if it is applied to a record -/
  | tag (name : String) (fields : List String)
deriving DecidableEq, Repr

/-! ## Names -/

/-- The words that are no names. -/
def reservedWords : List String :=
  ["if", "then", "else", "case", "of", "let", "in", "type", "module", "where", "import", "exposing", "as", "port"]

/-- The text is a name for values: it starts with a letter that is no capital. -/
def isVariable (text : String) : Bool :=
  (text.toList.head?.any fun c => Text.isAlphabetic c && !Text.isUppercase c) && !Text.hasChar text '.' &&
    !reservedWords.contains text

/-- The text is the name of a tag, without that of its module. -/
def isTag (text : String) : Bool :=
  Text.isCapitalised text && !Text.hasChar text '.'

/-! ## Reading -/

/-- The names of fields up to the closing bracket, which comes last. -/
def fields? : List Token → Option (List String)
  | name :: next :: rest =>
    if name.kind == .identifier && isVariable name.body then
      if next.kind == .comma then (fields? rest).map (name.body :: ·)
      else if next.kind == .closeCurly && rest.isEmpty then some [name.body]
      else none
    else none
  | _ => none

/-- The fields that an application of a tag asks for. -/
def argument? : List Token → Option (List String)
  | [] => none
  | token :: rest =>
    if token.kind == .openCurly then fields? rest
    else if token.body == "_" && rest.isEmpty then some []
    else none

/-- A single word. -/
def word? (text : String) : Option Operand :=
  if text == "_" then some .anything
  else if isTag text then some (.tag text [])
  else if isVariable text then some (.name text)
  else none

/-- The application of a tag, after its opening bracket. -/
def application? : List Token → Option Operand
  | [] => none
  | name :: rest =>
    if name.kind == .identifier && isTag name.body && rest.getLast?.any (·.kind == .closeBracket) then
      (argument? rest.dropLast).map (.tag name.body)
    else none

/-- One operand. -/
def operand? : List Token → Option Operand
  | [] => none
  | token :: rest =>
    if token.kind == .openBracket then application? rest
    else if !rest.isEmpty then none
    else
      match token.kind with
      | .string => some (.text (Grammar.unquote token.body))
      | .literal => if Grammar.isEmptyList token then some .emptyList else none
      | .identifier => word? token.body
      | _ => none

/-- The operands of a pattern from its text. -/
def consPattern? (text : String) : Option (List Operand) :=
  ((Token.significant (tokenize text)).splitOnP (·.kind == .operator .cons)).mapM operand?

/-! ## Matching -/

/-- What an operand binds when it matches a value. -/
def Operand.bindings? (reading : Reading) : Operand → Value → Option (List (String × Value))
  | .anything, _ => some []
  | .name known, value => some [(known, value)]
  | .text quoted, value => if value.isText (reading.quoted quoted) then some [] else none
  | .emptyList, .list [] => some []
  | .emptyList, _ => none
  | .tag own fields, value =>
    if value.hasTag own then some (fields.map fun field => (field, value.memberOf field)) else none

/-- What the operands bind when they match a list: each one element, and the last one all elements that are left. -/
def matchCons (reading : Reading) : List Operand → List Value → Option (List (String × Value))
  | [], _ => none
  | [last], items => last.bindings? reading (.list items)
  | _ :: _ :: _, [] => none
  | first :: second :: rest, item :: items => do
    let own ← first.bindings? reading item
    let others ← matchCons reading (second :: rest) items
    return own ++ others

end DerwLang.Elm
