/-
**Pipes as application.**

`x |> f a` is `f a x`, and `f <| x` is `f x`. `flattenPipes` rewrites the pipes at the head of an expression so,
and leaves a pipe alone whose function side is not a name, a call, a lambda or a reference to one of them.
`Expression.direct` does this everywhere in an expression: flattening never makes an expression larger
(`sizeOf_flattenPipes`), which is why going on into what it gives comes to an end.
-/

import DerwLang.Syntax.Expression

namespace DerwLang

/-! ## The head of an expression -/

namespace Expression

/-- The function applied to one more argument, if it is of a form that takes one. -/
def appliedTo? : Expression → Expression → Option Expression
  | .value name, argument => some (.call name [argument])
  | .call name arguments, argument => some (.call name (arguments ++ [argument]))
  | .reference path inner, argument => (appliedTo? inner argument).map (.reference path)
  | .lambda body, argument => some (.lambdaCall body [argument])
  | .lambdaCall body arguments, argument => some (.lambdaCall body (arguments ++ [argument]))
  | _, _ => none

/-- The expression with the pipes at its head written as application. -/
def flattenPipes : Expression → Expression
  | .binary .pipeInto argument function =>
    ((flattenPipes function).appliedTo? (flattenPipes argument)).getD (.binary .pipeInto argument function)
  | .binary .pipeFrom function argument =>
    ((flattenPipes function).appliedTo? (flattenPipes argument)).getD (.binary .pipeFrom function argument)
  | expression => expression

/-- One more element adds its size and one. -/
theorem sizeOf_append_singleton (items : List Expression) (item : Expression) :
    sizeOf (items ++ [item]) = sizeOf items + sizeOf item + 1 := by
  induction items with
  | nil => simp
  | cons first rest step => simp [step]; omega

/-- Application is at most two larger than its parts. -/
theorem sizeOf_appliedTo? {function argument result : Expression}
    (applied : function.appliedTo? argument = some result) :
    sizeOf result ≤ sizeOf function + sizeOf argument + 2 := by
  fun_induction appliedTo? function argument generalizing result with
  | case1 => simp at applied; subst applied; simp; omega
  | case2 => simp at applied; subst applied; simp [sizeOf_append_singleton]; omega
  | case3 path value argument step =>
    simp only [Option.map_eq_some_iff] at applied
    obtain ⟨inner, found, rfl⟩ := applied
    have := step found
    simp
    omega
  | case4 => simp at applied; subst applied; simp; omega
  | case5 => simp at applied; subst applied; simp [sizeOf_append_singleton]; omega
  | case6 => simp at applied

/-- Flattening never makes an expression larger. -/
theorem sizeOf_flattenPipes (expression : Expression) :
    sizeOf expression.flattenPipes ≤ sizeOf expression := by
  fun_induction flattenPipes expression with
  | case1 argument function functionStep argumentStep =>
    cases applied : (flattenPipes function).appliedTo? (flattenPipes argument) with
    | none => simp
    | some result =>
      have := sizeOf_appliedTo? applied
      simp
      omega
  | case2 function argument functionStep argumentStep =>
    cases applied : (flattenPipes function).appliedTo? (flattenPipes argument) with
    | none => simp
    | some result =>
      have := sizeOf_appliedTo? applied
      simp
      omega
  | case3 => simp

end Expression

/-! ## Everywhere -/

mutual

/-- The expression with pipes written as application everywhere in it. -/
def Expression.direct (expression : Expression) : Expression :=
  match _flattened : expression.flattenPipes with
  | .value text => .value text
  | .string text => .string text
  | .formatString text => .formatString text
  | .list items => .list (Expression.directEach items)
  | .range first last => .range first last
  | .record literal => .record literal.direct
  | .conditional predicate whenTrue whenFalse =>
    .conditional predicate.direct whenTrue.direct whenFalse.direct
  | .caseOf predicate branches => .caseOf predicate.direct (Branch.directEach branches)
  | .binary operator left right => .binary operator left.direct right.direct
  | .call name arguments => .call name (Expression.directEach arguments)
  | .lambda lambda => .lambda lambda.direct
  | .lambdaCall lambda arguments => .lambdaCall lambda.direct (Expression.directEach arguments)
  | .construct tag literal => .construct tag literal.direct
  | .reference path value => .reference path value.direct
termination_by sizeOf expression
decreasing_by
  all_goals
    have smaller := Expression.sizeOf_flattenPipes expression
    rw [_flattened] at smaller
    simp at smaller
    omega

/-- The expressions with pipes written as application. -/
def Expression.directEach : List Expression → List Expression
  | [] => []
  | item :: rest => item.direct :: Expression.directEach rest
termination_by items => sizeOf items

/-- The record literal with pipes written as application. -/
def RecordLiteral.direct : RecordLiteral → RecordLiteral
  | ⟨base, fields⟩ => ⟨base, Field.directEach fields⟩
termination_by literal => sizeOf literal

/-- The fields with pipes written as application. -/
def Field.directEach : List Field → List Field
  | [] => []
  | ⟨name, value⟩ :: rest => ⟨name, value.direct⟩ :: Field.directEach rest
termination_by fields => sizeOf fields

/-- The lambda with pipes written as application. -/
def Lambda.direct : Lambda → Lambda
  | ⟨parameters, body⟩ => ⟨parameters, body.direct⟩
termination_by lambda => sizeOf lambda

/-- The body with pipes written as application. -/
def Body.direct : Body → Body
  | ⟨locals, result⟩ => ⟨Block.directEach locals, result.direct⟩
termination_by body => sizeOf body

/-- The branches with pipes written as application. -/
def Branch.directEach : List Branch → List Branch
  | [] => []
  | ⟨pattern, body⟩ :: rest => ⟨pattern, body.direct⟩ :: Branch.directEach rest
termination_by branches => sizeOf branches

/-- The declaration with pipes written as application. -/
def Block.direct : Block → Block
  | .function ⟨name, returnType, parameters, body⟩ =>
    .function ⟨name, returnType, parameters, body.direct⟩
  | .constant ⟨name, type, body⟩ => .constant ⟨name, type, body.direct⟩
  | .imports modules => .imports modules
  | .exports names => .exports names
  | .union declared => .union declared
  | .alias declared => .alias declared
  | .comment text => .comment text
  | .multilineComment text => .multilineComment text
termination_by block => sizeOf block

/-- The declarations with pipes written as application. -/
def Block.directEach : List Block → List Block
  | [] => []
  | block :: rest => block.direct :: Block.directEach rest
termination_by blocks => sizeOf blocks

end

end DerwLang
