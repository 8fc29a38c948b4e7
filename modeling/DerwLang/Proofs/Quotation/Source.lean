/-
**The quoted texts of the source.**

Quoted texts and format strings stand in expressions at any depth, and in the patterns of cases (`Quotation`). Here is
which ones stand in an expression, a body or a declaration, local definitions among them.

`mem_quotations_direct`: writing pipes as application loses none of them.
-/

import DerwLang.Proofs.Types.Untyped

namespace DerwLang

/-- A quoted text or a format string, by what stands between its quotes. -/
inductive Quotation
  | plain (text : String)
  | template (text : String)
deriving DecidableEq, Repr

/-- The quotation with its quotes. -/
def Quotation.text : Quotation → String
  | .plain text => Text.quoted text
  | .template text => Text.backquoted text

/-! ## Patterns -/

/-- The quotation that a part of a list pattern is. -/
def ListPart.quotation? : ListPart → Option Quotation
  | .string text => some (.plain text)
  | .formatString text => some (.template text)
  | .emptyList | .name _ | .tag _ => none

/-- The quotations of a pattern. Nothing stands behind the `[]` of a list pattern that is read from a source. -/
def Pattern.quotations : Pattern → List Quotation
  | .string text => [.plain text]
  | .formatString text => [.template text]
  | .list parts => (parts.takeWhile (· != .emptyList)).filterMap ListPart.quotation?
  | .tag _ | .emptyList | .otherwise => []

/-! ## Expressions and declarations -/

mutual

/-- The quotations in an expression. -/
def Expression.quotations : Expression → List Quotation
  | .value _ | .range _ _ => []
  | .string text => [.plain text]
  | .formatString text => [.template text]
  | .list items => Expression.quotationsOfEach items
  | .record literal => literal.quotations
  | .conditional predicate whenTrue whenFalse =>
    predicate.quotations ++ whenTrue.quotations ++ whenFalse.quotations
  | .caseOf predicate branches => predicate.quotations ++ Branch.quotationsOfEach branches
  | .binary _ left right => left.quotations ++ right.quotations
  | .call _ arguments => Expression.quotationsOfEach arguments
  | .lambda lambda => lambda.quotations
  | .lambdaCall lambda arguments => lambda.quotations ++ Expression.quotationsOfEach arguments
  | .construct _ literal => literal.quotations
  | .reference _ value => value.quotations

/-- The quotations in expressions. -/
def Expression.quotationsOfEach : List Expression → List Quotation
  | [] => []
  | item :: rest => item.quotations ++ Expression.quotationsOfEach rest

/-- The quotations in a record literal. -/
def RecordLiteral.quotations : RecordLiteral → List Quotation
  | ⟨_, fields⟩ => Field.quotationsOfEach fields

/-- The quotations in fields. -/
def Field.quotationsOfEach : List Field → List Quotation
  | [] => []
  | ⟨_, value⟩ :: rest => value.quotations ++ Field.quotationsOfEach rest

/-- The quotations in a lambda. -/
def Lambda.quotations : Lambda → List Quotation
  | ⟨_, body⟩ => body.quotations

/-- The quotations in a body. -/
def Body.quotations : Body → List Quotation
  | ⟨locals, result⟩ => Block.quotationsOfEach locals ++ result.quotations

/-- The quotations in the patterns and the bodies of branches. -/
def Branch.quotationsOfEach : List Branch → List Quotation
  | [] => []
  | ⟨pattern, body⟩ :: rest => pattern.quotations ++ body.quotations ++ Branch.quotationsOfEach rest

/-- The quotations in a declaration. -/
def Block.quotations : Block → List Quotation
  | .function ⟨_, _, _, body⟩ => body.quotations
  | .constant ⟨_, _, body⟩ => body.quotations
  | .imports _ | .exports _ | .union _ | .alias _ | .comment _ | .multilineComment _ => []

/-- The quotations in declarations. -/
def Block.quotationsOfEach : List Block → List Quotation
  | [] => []
  | block :: rest => block.quotations ++ Block.quotationsOfEach rest

end

section Lists

variable {quotation : Quotation}

theorem Expression.mem_quotationsOfEach {items : List Expression} :
    quotation ∈ Expression.quotationsOfEach items ↔ ∃ item ∈ items, quotation ∈ item.quotations := by
  induction items <;> simp_all [Expression.quotationsOfEach]

theorem Block.mem_quotationsOfEach {blocks : List Block} :
    quotation ∈ Block.quotationsOfEach blocks ↔ ∃ block ∈ blocks, quotation ∈ block.quotations := by
  induction blocks <;> simp_all [Block.quotationsOfEach]

end Lists

/-! ## Pipes as application -/

section Pipes

variable {quotation : Quotation}

/-- A function that takes one more argument keeps its quotations and gets those of the argument. -/
theorem mem_quotations_appliedTo? {function argument result : Expression}
    (applied : function.appliedTo? argument = some result)
    (found : quotation ∈ function.quotations ∨ quotation ∈ argument.quotations) : quotation ∈ result.quotations := by
  fun_induction Expression.appliedTo? function argument generalizing result with
  | case1 name argument =>
    obtain rfl := Option.some.inj applied
    simpa [Expression.quotations, Expression.quotationsOfEach] using found
  | case2 name arguments argument =>
    obtain rfl := Option.some.inj applied
    rw [Expression.quotations, Expression.mem_quotationsOfEach] at found ⊢
    rcases found with ⟨item, member, inside⟩ | inside
    · exact ⟨item, List.mem_append_left _ member, inside⟩
    · exact ⟨argument, by simp, inside⟩
  | case3 path inner argument step =>
    obtain ⟨value, appliedInner, rfl⟩ := Option.map_eq_some_iff.mp applied
    show quotation ∈ value.quotations
    exact step appliedInner found
  | case4 lambda argument =>
    obtain rfl := Option.some.inj applied
    simpa [Expression.quotations, Expression.quotationsOfEach] using found
  | case5 lambda arguments argument =>
    obtain rfl := Option.some.inj applied
    rw [Expression.quotations, List.mem_append, Expression.mem_quotationsOfEach] at found ⊢
    rcases found with (inside | ⟨item, member, inside⟩) | inside
    · exact .inl inside
    · exact .inr ⟨item, List.mem_append_left _ member, inside⟩
    · exact .inr ⟨argument, by simp, inside⟩
  | case6 => cases applied

/-- Writing pipes at the head as application loses no quotation. -/
theorem mem_quotations_flattenPipes {expression : Expression} (found : quotation ∈ expression.quotations) :
    quotation ∈ expression.flattenPipes.quotations := by
  fun_induction Expression.flattenPipes expression with
  | case1 argument function functionStep argumentStep =>
    cases applied : function.flattenPipes.appliedTo? argument.flattenPipes with
    | none => exact found
    | some result =>
      refine mem_quotations_appliedTo? applied ?_
      exact (List.mem_append.mp found).symm.imp functionStep argumentStep
  | case2 function argument functionStep argumentStep =>
    cases applied : function.flattenPipes.appliedTo? argument.flattenPipes with
    | none => exact found
    | some result =>
      refine mem_quotations_appliedTo? applied ?_
      exact (List.mem_append.mp found).imp functionStep argumentStep
  | case3 => exact found

mutual

/-- **Writing pipes as application loses no quotation.** -/
theorem mem_quotations_direct (expression : Expression) (found : quotation ∈ expression.quotations) :
    quotation ∈ expression.direct.quotations := by
  have smaller := expression.sizeOf_flattenPipes
  have flat := mem_quotations_flattenPipes found
  rw [Expression.direct_eq]
  cases same : expression.flattenPipes <;>
    simp only [same, Expression.inward, Expression.quotations, List.mem_append] at flat ⊢
  case string | formatString => exact flat
  case value | range => cases flat
  case list items => exact mem_quotations_directEach items flat
  case record literal => exact mem_quotations_directRecord literal flat
  case conditional predicate whenTrue whenFalse =>
    exact flat.imp (Or.imp (mem_quotations_direct predicate) (mem_quotations_directBody whenTrue))
      (mem_quotations_directBody whenFalse)
  case caseOf predicate branches =>
    exact flat.imp (mem_quotations_direct predicate) (mem_quotations_directBranches branches)
  case binary operator left right => exact flat.imp (mem_quotations_direct left) (mem_quotations_direct right)
  case call name arguments => exact mem_quotations_directEach arguments flat
  case lambda inner => exact mem_quotations_directLambda inner flat
  case lambdaCall inner arguments =>
    exact flat.imp (mem_quotations_directLambda inner) (mem_quotations_directEach arguments)
  case construct tag literal => exact mem_quotations_directRecord literal flat
  case reference path value => exact mem_quotations_direct value flat
termination_by sizeOf expression
decreasing_by
  all_goals
    simp only [same] at smaller
    simp at smaller
    omega

theorem mem_quotations_directEach (items : List Expression) (found : quotation ∈ Expression.quotationsOfEach items) :
    quotation ∈ Expression.quotationsOfEach (Expression.directEach items) := by
  match items with
  | [] => cases found
  | item :: rest =>
    rw [Expression.directEach, Expression.quotationsOfEach, List.mem_append]
    exact (List.mem_append.mp found).imp (mem_quotations_direct item) (mem_quotations_directEach rest)
termination_by sizeOf items

theorem mem_quotations_directRecord (literal : RecordLiteral) (found : quotation ∈ literal.quotations) :
    quotation ∈ literal.direct.quotations := by
  match literal with
  | ⟨base, fields⟩ =>
    rw [RecordLiteral.direct]
    exact mem_quotations_directFields fields found
termination_by sizeOf literal

theorem mem_quotations_directFields (fields : List Field) (found : quotation ∈ Field.quotationsOfEach fields) :
    quotation ∈ Field.quotationsOfEach (Field.directEach fields) := by
  match fields with
  | [] => cases found
  | ⟨name, value⟩ :: rest =>
    rw [Field.directEach, Field.quotationsOfEach, List.mem_append]
    exact (List.mem_append.mp found).imp (mem_quotations_direct value) (mem_quotations_directFields rest)
termination_by sizeOf fields

theorem mem_quotations_directLambda (lambda : Lambda) (found : quotation ∈ lambda.quotations) :
    quotation ∈ lambda.direct.quotations := by
  match lambda with
  | ⟨parameters, body⟩ =>
    rw [Lambda.direct]
    exact mem_quotations_direct body found
termination_by sizeOf lambda

theorem mem_quotations_directBody (body : Body) (found : quotation ∈ body.quotations) :
    quotation ∈ body.direct.quotations := by
  match body with
  | ⟨locals, result⟩ =>
    rw [Body.direct, Body.quotations, List.mem_append]
    exact (List.mem_append.mp found).imp (mem_quotations_directBlocks locals) (mem_quotations_direct result)
termination_by sizeOf body

theorem mem_quotations_directBranches (branches : List Branch) (found : quotation ∈ Branch.quotationsOfEach branches) :
    quotation ∈ Branch.quotationsOfEach (Branch.directEach branches) := by
  match branches with
  | [] => cases found
  | ⟨pattern, body⟩ :: rest =>
    rw [Branch.quotationsOfEach, List.mem_append, List.mem_append] at found
    rw [Branch.directEach, Branch.quotationsOfEach, List.mem_append, List.mem_append]
    exact found.imp (Or.imp_right (mem_quotations_directBody body)) (mem_quotations_directBranches rest)
termination_by sizeOf branches

theorem mem_quotations_directBlock (block : Block) (found : quotation ∈ block.quotations) :
    quotation ∈ block.direct.quotations := by
  match block with
  | .function ⟨name, returnType, parameters, body⟩ =>
    rw [Block.direct]
    exact mem_quotations_directBody body found
  | .constant ⟨name, type, body⟩ =>
    rw [Block.direct]
    exact mem_quotations_directBody body found
  | .imports _ | .exports _ | .union _ | .alias _ | .comment _ | .multilineComment _ => cases found
termination_by sizeOf block

theorem mem_quotations_directBlocks (blocks : List Block) (found : quotation ∈ Block.quotationsOfEach blocks) :
    quotation ∈ Block.quotationsOfEach (Block.directEach blocks) := by
  match blocks with
  | [] => cases found
  | block :: rest =>
    rw [Block.directEach, Block.quotationsOfEach, List.mem_append]
    exact (List.mem_append.mp found).imp (mem_quotations_directBlock block) (mem_quotations_directBlocks rest)
termination_by sizeOf blocks

end

end Pipes

end DerwLang
