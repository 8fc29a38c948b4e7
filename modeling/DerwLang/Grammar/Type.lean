/-
**Reading types.**

A signature is read segment by segment. A plain segment is a name with arguments, each of them a name or an
annotation in brackets; a function segment is read as a signature of its own. Annotations nest in fewer and
fewer tokens, so the number of tokens bounds the nesting.
-/

import DerwLang.Grammar.Window
import DerwLang.Syntax.Type

namespace DerwLang.Grammar

/-- The line of the first token. -/
def lineOf (tokens : List Token) : Nat :=
  (tokens.head?.map Token.line).getD 1

/-- The type that the parts of a signature make: the only one, or a function type. -/
def typeOfParts : List Ty → Ty
  | [type] => type
  | types => .function types

/-- The arguments of the named type `head`, with annotations in brackets read by `nested`. -/
def typeArguments (nested : List Token → Parsed (List Ty)) (head : String) :
    List Token → Parsed (List Ty)
  | [] => .ok []
  | token :: rest =>
    match token.kind with
    | .identifier => do
      let others ← typeArguments nested head rest
      return Ty.ofName token.body :: others
    | .openBracket =>
      match _closed : Token.splitClose .openBracket .closeBracket 0 rest with
      | none => .error ⟨.unclosedTypeArgument, token.line⟩
      | some cut => do
        let types ← nested cut.inside
        let others ← typeArguments nested head cut.after
        return typeOfParts types :: others
    | _ => .error ⟨.noTypeArgument token.body head, token.line⟩
termination_by tokens => tokens.length
decreasing_by
  · simp
  · have := congrArg List.length (Token.splitClose_eq _closed)
    simp only [Cut.all, List.length_append, List.length_cons] at this
    simp only [List.length_cons]
    omega

/-- A name with its arguments. -/
def namedType (nested : List Token → Parsed (List Ty)) (line : Nat) : List Token → Parsed Ty
  | [] => .error ⟨.missingTypeName, line⟩
  | head :: rest =>
    if head.kind == .identifier then do
      match ← typeArguments nested head.body rest with
      | [] => return Ty.ofName head.body
      | types => return .named head.body types
    else .error ⟨.noTypeName head.body, head.line⟩

/-- The type of one segment of a signature. -/
def segmentType (nested : List Token → Parsed (List Ty)) (line : Nat) : TypeSegment → Parsed Ty
  | .plain tokens => namedType nested line tokens
  | .function tokens => Ty.function <$> nested tokens

/-- The types of a signature, nested annotations being read by `nested`. -/
def signatureStep (nested : List Token → Parsed (List Ty)) (tokens : List Token) :
    Parsed (List Ty) :=
  match TypeSegment.ofTokens tokens with
  | .error error => .error ⟨.type error, lineOf tokens⟩
  | .ok segments => segments.mapM (segmentType nested (lineOf tokens))

/-- The types of a signature that nests at most so deep. -/
def signatureAt : Nat → List Token → Parsed (List Ty)
  | 0, tokens => .error ⟨.type .empty, lineOf tokens⟩
  | depth + 1, tokens => signatureStep (signatureAt depth) tokens

/-- The types of a signature, in order. -/
def signature (tokens : List Token) : Parsed (List Ty) :=
  signatureAt tokens.length tokens

/-- A single type; an arrow chain without brackets is a function type. -/
def typeOf (tokens : List Token) : Parsed Ty :=
  typeOfParts <$> signature tokens

end DerwLang.Grammar
