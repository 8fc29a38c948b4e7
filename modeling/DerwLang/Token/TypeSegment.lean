/-
**The segments of a type annotation.**

Arrows outside round brackets part an annotation into segments. A segment in brackets that holds such an arrow
itself is a function type; any other loses the brackets around it and is a plain type. Annotations with
unbalanced brackets or an empty segment are refused.
-/

import DerwLang.Token.Basic

namespace DerwLang

/-- One arrow-separated segment of a type annotation. -/
inductive TypeSegment
  /-- a plain type, without brackets around it -/
  | plain (tokens : List Token)
  /-- what stands between the brackets of a function type -/
  | function (tokens : List Token)
deriving DecidableEq, Repr

/-- Why an annotation has no segments. -/
inductive TypeSegment.Error
  | empty
  | unbalanced (text : String)
  | missingSegment (text : String)
deriving DecidableEq, Repr

/-- The wording of an error. -/
def TypeSegment.Error.message : TypeSegment.Error → String
  | .empty => "Expected a type but found nothing"
  | .unbalanced text => "Unbalanced brackets in type `" ++ text ++ "`"
  | .missingSegment text => "Expected a type on both sides of `->` in `" ++ text ++ "`"

namespace TypeSegment

/-- Round brackets close in order, `depth` of them being open, and all are closed at the end. -/
def balancedFrom : Nat → List Token → Bool
  | depth, [] => depth == 0
  | depth, token :: rest =>
    match token.kind, depth with
    | .openBracket, depth => balancedFrom (depth + 1) rest
    | .closeBracket, 0 => false
    | .closeBracket, depth + 1 => balancedFrom depth rest
    | _, depth => balancedFrom depth rest

/-- Round brackets close in order, and all are closed at the end. -/
def balanced (tokens : List Token) : Bool :=
  balancedFrom 0 tokens

/-- The parts between the arrows outside brackets, `depth` brackets being open. -/
def splitFrom : Nat → List Token → List (List Token)
  | _, [] => [[]]
  | depth, token :: rest =>
    if token.kind == .arrow && depth == 0 then [] :: splitFrom 0 rest
    else
      let inner :=
        match token.kind with
        | .openBracket => depth + 1
        | .closeBracket => depth - 1
        | _ => depth
      match splitFrom inner rest with
      | [] => [[token]]
      | part :: more => (token :: part) :: more

/-- The parts between the arrows outside brackets. -/
def split (tokens : List Token) : List (List Token) :=
  splitFrom 0 tokens

/-- The bracket that is open before the tokens is closed by the last of them and not earlier, with `depth`
further ones open: what stands before that last one. -/
def beforeLastClose : Nat → List Token → Option (List Token)
  | _, [] => none
  | 0, [token] => if token.kind == .closeBracket then some [] else none
  | depth, token :: rest =>
    match token.kind, depth with
    | .closeBracket, 0 => none
    | .closeBracket, depth + 1 => (beforeLastClose depth rest).map (token :: ·)
    | .openBracket, depth => (beforeLastClose (depth + 1) rest).map (token :: ·)
    | _, depth => (beforeLastClose depth rest).map (token :: ·)

/-- What stands between brackets when the first token opens and the last token closes them. -/
def withoutBrackets : List Token → Option (List Token)
  | [] => none
  | token :: rest => if token.kind == .openBracket then beforeLastClose 0 rest else none

/-- The tokens before the last close are fewer. -/
theorem length_beforeLastClose {depth : Nat} {tokens inner : List Token}
    (found : beforeLastClose depth tokens = some inner) : inner.length < tokens.length := by
  fun_induction beforeLastClose depth tokens generalizing inner <;> simp_all
  all_goals
    obtain ⟨rest, smaller, rfl⟩ := found
    simp_all

/-- Without their brackets the tokens are fewer. -/
theorem length_withoutBrackets {tokens inner : List Token}
    (found : withoutBrackets tokens = some inner) : inner.length < tokens.length := by
  unfold withoutBrackets at found
  split at found
  · simp at found
  · split at found
    · have := length_beforeLastClose found
      simp only [List.length_cons]
      omega
    · simp at found

/-- The segment that the tokens between two arrows make. -/
def classify (tokens : List Token) : TypeSegment :=
  match _found : withoutBrackets tokens with
  | none => .plain tokens
  | some inner => if (split inner).length > 1 then .function inner else classify inner
termination_by tokens.length
decreasing_by exact length_withoutBrackets _found

/-- The segments of an annotation; white space and comments do not count. -/
def ofTokens (tokens : List Token) : Except TypeSegment.Error (List TypeSegment) :=
  let significant := Token.significant tokens
  if significant.isEmpty then .error .empty
  else if !balanced significant then .error (.unbalanced (Token.text tokens))
  else if (split significant).any List.isEmpty then
    .error (.missingSegment (Text.trim (Token.text tokens)))
  else .ok ((split significant).map classify)

end TypeSegment

end DerwLang
