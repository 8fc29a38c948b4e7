/-
**Reading types by index.**

An annotation is handed on as a slice of the tokens. A loop over the tokens after a type's name takes one argument after the
other, a name or what stands between an index and the closing bracket.
-/

import DerwLang.Grammar.Type
import DerwLang.Indexed.Cursor
import DerwLang.Indexed.TypeSegment

namespace DerwLang.Indexed

/-- The type that the parts of a signature make: the only one, or a function type. -/
def soleType (types : List Ty) : Checked Ty :=
  if types.length == 1 then Checked.item types 0 else return .function types

/-- The bracket that closes one of the `depth` that are open, the first of the tokens being the one at `index`. -/
def closingRound : List Token → (depth index : Nat) → Checked (Option Nat)
  | [], _, _ => return none
  | token :: rest, depth, index =>
    match token.kind with
    | .openBracket => closingRound rest (depth + 1) (index + 1)
    | .closeBracket => do
      let further ← Checked.minus depth 1
      if further == 0 then return some index else closingRound rest further (index + 1)
    | _ => closingRound rest depth (index + 1)

/-- The arguments of the named type `head` from an index on, with annotations in brackets read by `nested`. -/
def typeArguments (nested : List Token → Guarded (List Ty)) (head : String) (tokens : List Token) :
    (round index : Nat) → Guarded (List Ty)
  | 0, _ => .fault .endless
  | round + 1, index =>
    if index < tokens.length then do
      let token ← access (Checked.item tokens index)
      match token.kind with
      | .identifier =>
        let others ← typeArguments nested head tokens round (index + 1)
        return Ty.ofName token.body :: others
      | .openBracket =>
        match ← access (closingRound (tokens.drop index) 0 index) with
        | none => .refuse .unclosedTypeArgument token.line
        | some close =>
          let inner ← access (Checked.slice tokens (index + 1) close)
          let types ← nested inner
          let type ← access (soleType types)
          let others ← typeArguments nested head tokens round (close + 1)
          return type :: others
      | _ => .refuse (.noTypeArgument token.body head) token.line
    else return []

/-- A name with its arguments. -/
def namedType (nested : List Token → Guarded (List Ty)) (line : Nat) : List Token → Guarded Ty
  | [] => .refuse .missingTypeName line
  | head :: rest =>
    if head.kind == .identifier then do
      match ← typeArguments nested head.body rest (rest.length + 1) 0 with
      | [] => return Ty.ofName head.body
      | types => return .named head.body types
    else .refuse (.noTypeName head.body) head.line

/-- The type of one segment of a signature. -/
def segmentType (nested : List Token → Guarded (List Ty)) (line : Nat) : TypeSegment → Guarded Ty
  | .plain tokens => namedType nested line tokens
  | .function tokens => Ty.function <$> nested tokens

/-- The types of a signature, nested annotations being read by `nested`. -/
def signatureStep (nested : List Token → Guarded (List Ty)) (tokens : List Token) : Guarded (List Ty) := do
  match ← access (typeSegments tokens) with
  | .error error => .refuse (.type error) (Grammar.lineOf tokens)
  | .ok segments => segments.mapM (segmentType nested (Grammar.lineOf tokens))

/-- The types of a signature that nests less than so deep. -/
def signatureAt : Nat → List Token → Guarded (List Ty)
  | 0, _ => .fault .endless
  | depth + 1, tokens => signatureStep (signatureAt depth) tokens

/-- The types of a signature, in order. -/
def signature (tokens : List Token) : Guarded (List Ty) :=
  signatureAt (tokens.length + 1) tokens

/-- A single type; an arrow chain without brackets is a function type. -/
def typeOf (tokens : List Token) : Guarded Ty := do
  let types ← signature tokens
  access (soleType types)

end DerwLang.Indexed
