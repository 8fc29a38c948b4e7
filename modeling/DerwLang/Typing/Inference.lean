/-
**The types of expressions.**

Inference looks at the form of an expression and does not unify. Numbers, truth values and texts have their
types; the items of a list and the branches of a conditional or a case have to agree; arithmetic takes numbers;
names, calls, pipes, records and lambdas are `any`. Two types agree when they differ only where one of them has
`any` or a variable.
-/

import DerwLang.Syntax.Expression
import DerwLang.Text.Numeral

namespace DerwLang

/-- Why an expression has no type. -/
inductive TypeError
  | conflicting (first second : Ty)
  | mismatching (left right : Ty)
  | invalidPrepend (left right : String)
deriving Repr

/-- The wording of an error. -/
def TypeError.message : TypeError → String
  | .conflicting first second => "Conflicting types: " ++ first.text ++ ", " ++ second.text
  | .mismatching left right => "Mismatching types between " ++ left.text ++ " and " ++ right.text
  | .invalidPrepend left right =>
    "Invalid types in :: - lefthand (" ++ left ++ ") must match elements of righthand (" ++ right ++ ")"

/-! ## Agreement -/

namespace Ty

/-- The type agrees with every other: it is `any` or a variable. -/
def isWildcard (type : Ty) : Bool :=
  type.isAny || type.isVariable

mutual

/-- The two types can be types of one value. -/
def agree (first second : Ty) : Bool :=
  first.isWildcard || second.isWildcard ||
    match first, second with
    | .named name arguments, .named other others => name == other && agreeAll arguments others
    | .function parts, .function others => agreeAll parts others
    | _, _ => false

/-- The types agree one by one, and there are as many of them. -/
def agreeAll : List Ty → List Ty → Bool
  | [], [] => true
  | first :: rest, second :: others => agree first second && agreeAll rest others
  | _, _ => false

end

/-- The type that two agreeing types share: the first one, if it says anything. -/
def merge? (first second : Ty) : Option Ty :=
  if agree first second then some (if first.isWildcard then second else first) else none

end Ty

/-! ## Inference -/

/-- The type of an expression, or why it has none. -/
abbrev Inferred := Except TypeError Ty

namespace Inferred

/-- The type that the current one, if any, and all the others share. -/
def agreeingWith : Option Ty → List Inferred → Inferred
  | current, [] => .ok (current.getD .any)
  | current, next :: rest => do
    let type ← next
    match current with
    | none => agreeingWith (some type) rest
    | some existing =>
      match existing.merge? type with
      | some shared => agreeingWith (some shared) rest
      | none => .error (.conflicting existing type)

/-- The type that all share, `any` if there are none. -/
def agreeing (types : List Inferred) : Inferred :=
  agreeingWith none types

/-- The type of arithmetic on two operands. -/
def arithmetic (left right : Inferred) : Inferred := do
  let left ← left
  let right ← right
  if (left.isAny || left.isNumber) && (right.isAny || right.isNumber) then return .number
  else throw (.mismatching left right)

end Inferred

/-- The type of a number, a boolean or a name. -/
def valueType (text : String) : Ty :=
  if Text.isNumeral text then .number
  else if text == "true" || text == "false" then .boolean
  else .any

/-- The type of a tagged value: the union that declares the tag, or else the tag itself. -/
def tagType (unions : List UnionType) (tag : String) : Ty :=
  match unions.find? fun union => union.tags.any fun declared => declared.name == tag with
  | some union => union.type
  | none => .plain tag

/-- How a message names an operand: a tagged value by the name of its type. -/
def operandLabel (operand : Expression) (type : Ty) : String :=
  match operand, type.name? with
  | .construct _ _, some name => name
  | _, _ => type.text

/-- The first item of what is written as a list. -/
def firstItem? : Expression → Option Expression
  | .list items => items.head?
  | .binary .prepend first _ => some first
  | _ => none

/-- How a message names the elements of a list. -/
def elementLabel (list : Expression) (element : Ty) : String :=
  match firstItem? list with
  | some item => operandLabel item element
  | none => element.text

/-- The type of an element in front of a list, from the two operands and their types. -/
def prependType (left right : Expression) (head tail : Inferred) : Inferred := do
  let head ← head
  let tail ← tail
  let refuse (element : Ty) : Inferred :=
    .error (.invalidPrepend (operandLabel left head) (elementLabel right element))
  if tail.isWildcard then return .list head
  else
    match tail.listElement? with
    | none => refuse tail
    | some element =>
      match head.merge? element with
      | some shared => return .list shared
      | none => refuse element

mutual

/-- The type of an expression, given the union types in scope. -/
def Expression.infer (unions : List UnionType) : Expression → Inferred
  | .value text => .ok (valueType text)
  | .string _ | .formatString _ => .ok .string
  | .list items => do
    let element ← Inferred.agreeing (Expression.inferEach unions items)
    return .list element
  | .range _ _ => .ok (.list .number)
  | .record _ => .ok .any
  | .conditional _ ⟨_, whenTrue⟩ ⟨_, whenFalse⟩ =>
    Inferred.agreeing [whenTrue.infer unions, whenFalse.infer unions]
  | .caseOf _ branches => Inferred.agreeing (Branch.inferEach unions branches)
  | .binary operator left right =>
    if operator.isArithmetic then
      Inferred.arithmetic (left.infer unions) (right.infer unions)
    else
      match operator with
      | .prepend => prependType left right (left.infer unions) (right.infer unions)
      | .pipeInto | .pipeFrom => .ok .any
      | _ => .ok .boolean
  | .call _ _ | .lambda _ | .lambdaCall _ _ | .reference _ _ => .ok .any
  | .construct tag _ => .ok (tagType unions tag)

/-- The types of several expressions. -/
def Expression.inferEach (unions : List UnionType) : List Expression → List Inferred
  | [] => []
  | expression :: rest => expression.infer unions :: Expression.inferEach unions rest

/-- The types of the results of several branches. -/
def Branch.inferEach (unions : List UnionType) : List Branch → List Inferred
  | [] => []
  | ⟨_, ⟨_, result⟩⟩ :: rest => result.infer unions :: Branch.inferEach unions rest

end

end DerwLang
