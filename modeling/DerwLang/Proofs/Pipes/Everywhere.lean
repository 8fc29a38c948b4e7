/-
**What writing pipes as application keeps.**

Application makes calls of names and adds arguments to calls; all else stays as it was, over expressions in which the same was
done. So whatever is asked of the roots of expressions alone (`Checks.Shallow`) holds everywhere afterwards if it did before
(`everywhere_direct`, and `everywhere_directBlocks` for the declarations of a module).
-/

import DerwLang.Proofs.Layout.Everywhere
import DerwLang.Syntax.Pipes

set_option linter.unusedSectionVars false

namespace DerwLang

/-- The record has the base and the field names of the other one. -/
def RecordLiteral.SameNames (literal other : RecordLiteral) : Prop :=
  other.base = literal.base ∧ other.fields.map Field.name = literal.fields.map Field.name

/-- The second expression has the root of the first one, over other expressions, or applies the first one to arguments. -/
inductive Expression.Rooted : Expression → Expression → Prop
  | list (items others : List Expression) : Rooted (.list items) (.list others)
  | record {literal other : RecordLiteral} (names : literal.SameNames other) : Rooted (.record literal) (.record other)
  | conditional (predicate test : Expression) (whenTrue whenFalse yes no : Body) :
    Rooted (.conditional predicate whenTrue whenFalse) (.conditional test yes no)
  | caseOf (predicate value : Expression) (branches others : List Branch) :
    Rooted (.caseOf predicate branches) (.caseOf value others)
  | binary (operator : BinaryOperator) (left right first second : Expression) :
    Rooted (.binary operator left right) (.binary operator first second)
  | applied (name : String) (arguments : List Expression) : Rooted (.value name) (.call name arguments)
  | call (name : String) (arguments others : List Expression) : Rooted (.call name arguments) (.call name others)
  | lambda {lambda other : Lambda} (parameters : other.parameters = lambda.parameters) : Rooted (.lambda lambda) (.lambda other)
  | lambdaApplied (lambda : Lambda) (arguments : List Expression) : Rooted (.lambda lambda) (.lambdaCall lambda arguments)
  | lambdaCall {lambda other : Lambda} (parameters : other.parameters = lambda.parameters) (arguments others : List Expression) :
    Rooted (.lambdaCall lambda arguments) (.lambdaCall other others)
  | construct (tag : String) {literal other : RecordLiteral} (names : literal.SameNames other) :
    Rooted (.construct tag literal) (.construct tag other)

/-- The checks ask nothing of what stands below the root of an expression or in a body, and of a reference the same as of its
path and of its value. -/
structure Checks.Shallow (checks : Checks) : Prop where
  rooted : ∀ {first second}, Expression.Rooted first second → checks.expression first → checks.expression second
  value : ∀ {path value}, checks.expression (.reference path value) → checks.expression value
  reference : ∀ {path value other}, checks.expression (.reference path value) → checks.expression other →
    checks.expression (.reference path other)
  body : ∀ body, checks.body body
  function : ∀ {name returnType parameters body} (other : Body), checks.block (.function ⟨name, returnType, parameters, body⟩) →
    checks.block (.function ⟨name, returnType, parameters, other⟩)
  constant : ∀ {name type body} (other : Body), checks.block (.constant ⟨name, type, body⟩) →
    checks.block (.constant ⟨name, type, other⟩)

/-- Fields keep their names. -/
theorem names_directEach (fields : List Field) : (Field.directEach fields).map Field.name = fields.map Field.name := by
  induction fields with
  | nil => rw [Field.directEach]
  | cons field rest step =>
    obtain ⟨name, value⟩ := field
    rw [Field.directEach, List.map_cons, List.map_cons, step]

theorem sameNames_direct (literal : RecordLiteral) : literal.SameNames literal.direct := by
  obtain ⟨base, fields⟩ := literal
  rw [RecordLiteral.direct]
  exact ⟨rfl, names_directEach fields⟩

theorem parameters_direct (lambda : Lambda) : lambda.direct.parameters = lambda.parameters := by
  obtain ⟨parameters, body⟩ := lambda
  rw [Lambda.direct]

section Direct

variable {checks : Checks} (shallow : checks.Shallow)

include shallow

/-- One more argument keeps what holds everywhere. -/
theorem everywhere_appliedTo? {function argument result : Expression} (first : function.Everywhere checks)
    (second : argument.Everywhere checks) (applied : function.appliedTo? argument = some result) :
    result.Everywhere checks := by
  fun_induction Expression.appliedTo? function argument generalizing result with
  | case1 name argument =>
    obtain rfl := Option.some.inj applied
    exact everywhere_call.mpr ⟨shallow.rooted (.applied _ _) first.1, List.forall_mem_singleton.mpr second⟩
  | case2 name arguments argument =>
    obtain rfl := Option.some.inj applied
    obtain ⟨own, inner⟩ := everywhere_call.mp first
    exact everywhere_call.mpr
      ⟨shallow.rooted (.call _ _ _) own, List.forall_mem_append.mpr ⟨inner, List.forall_mem_singleton.mpr second⟩⟩
  | case3 path inner argument step =>
    obtain ⟨value, found, rfl⟩ := Option.map_eq_some_iff.mp applied
    have whole := step ⟨shallow.value first.1, first.2⟩ second found
    exact ⟨shallow.reference first.1 whole.1, whole.2⟩
  | case4 body argument =>
    obtain rfl := Option.some.inj applied
    exact ⟨shallow.rooted (.lambdaApplied _ _) first.1, first.2,
      Expression.everywhereEach.mpr (List.forall_mem_singleton.mpr second)⟩
  | case5 body arguments argument =>
    obtain rfl := Option.some.inj applied
    obtain ⟨own, lambda, inner⟩ := first
    exact ⟨shallow.rooted (.lambdaCall rfl _ _) own, lambda, Expression.everywhereEach.mpr
      (List.forall_mem_append.mpr ⟨Expression.everywhereEach.mp inner, List.forall_mem_singleton.mpr second⟩)⟩
  | case6 => simp at applied

/-- Writing pipes at the head as application keeps what holds everywhere. -/
theorem everywhere_flattenPipes {expression : Expression} (everywhere : expression.Everywhere checks) :
    expression.flattenPipes.Everywhere checks := by
  fun_induction Expression.flattenPipes expression with
  | case1 argument function functionStep argumentStep =>
    obtain ⟨-, first, second⟩ := everywhere_binary.mp everywhere
    cases applied : function.flattenPipes.appliedTo? argument.flattenPipes with
    | none => exact everywhere
    | some result => exact everywhere_appliedTo? shallow (functionStep second) (argumentStep first) applied
  | case2 function argument functionStep argumentStep =>
    obtain ⟨-, first, second⟩ := everywhere_binary.mp everywhere
    cases applied : function.flattenPipes.appliedTo? argument.flattenPipes with
    | none => exact everywhere
    | some result => exact everywhere_appliedTo? shallow (functionStep first) (argumentStep second) applied
  | case3 => exact everywhere

mutual

/-- **Writing pipes as application keeps what holds everywhere.** -/
theorem everywhere_direct (expression : Expression) (everywhere : expression.Everywhere checks) :
    expression.direct.Everywhere checks := by
  have flat := everywhere_flattenPipes shallow everywhere
  have smaller := Expression.sizeOf_flattenPipes expression
  rw [Expression.direct]
  split
  all_goals
    rename_i same
    rw [same] at flat
  · exact flat
  · exact flat
  · exact flat
  · next items =>
    obtain ⟨own, inner⟩ := everywhere_list.mp flat
    exact everywhere_list.mpr ⟨shallow.rooted (.list _ _) own, everywhere_directEach items inner⟩
  · exact flat
  · next literal =>
    exact ⟨shallow.rooted (.record (sameNames_direct literal)) flat.1, everywhere_directRecord literal flat.2⟩
  · next predicate whenTrue whenFalse =>
    obtain ⟨own, test, yes, no⟩ := everywhere_conditional.mp flat
    exact everywhere_conditional.mpr ⟨shallow.rooted (.conditional _ _ _ _ _ _) own, everywhere_direct predicate test,
      everywhere_directBody whenTrue yes, everywhere_directBody whenFalse no⟩
  · next predicate branches =>
    obtain ⟨own, value, inner⟩ := everywhere_caseOf.mp flat
    exact everywhere_caseOf.mpr
      ⟨shallow.rooted (.caseOf _ _ _ _) own, everywhere_direct predicate value, everywhere_directBranches branches inner⟩
  · next operator left right =>
    obtain ⟨own, first, second⟩ := everywhere_binary.mp flat
    exact everywhere_binary.mpr
      ⟨shallow.rooted (.binary _ _ _ _ _) own, everywhere_direct left first, everywhere_direct right second⟩
  · next name arguments =>
    obtain ⟨own, inner⟩ := everywhere_call.mp flat
    exact everywhere_call.mpr ⟨shallow.rooted (.call _ _ _) own, everywhere_directEach arguments inner⟩
  · next lambda =>
    exact ⟨shallow.rooted (.lambda (parameters_direct lambda)) flat.1, everywhere_directLambda lambda flat.2⟩
  · next lambda arguments =>
    obtain ⟨own, inner, others⟩ := flat
    exact ⟨shallow.rooted (.lambdaCall (parameters_direct lambda) _ _) own, everywhere_directLambda lambda inner,
      Expression.everywhereEach.mpr (everywhere_directEach arguments (Expression.everywhereEach.mp others))⟩
  · next tag literal =>
    exact ⟨shallow.rooted (.construct _ (sameNames_direct literal)) flat.1, everywhere_directRecord literal flat.2⟩
  · next path value =>
    have whole := everywhere_direct value ⟨shallow.value flat.1, flat.2⟩
    exact ⟨shallow.reference flat.1 whole.1, whole.2⟩
termination_by sizeOf expression
decreasing_by
  all_goals
    simp only [*] at smaller
    simp at smaller
    omega

theorem everywhere_directEach (items : List Expression) (everywhere : ∀ item ∈ items, item.Everywhere checks) :
    ∀ item ∈ Expression.directEach items, item.Everywhere checks := by
  match items with
  | [] => simp [Expression.directEach]
  | item :: rest =>
    obtain ⟨first, others⟩ := List.forall_mem_cons.mp everywhere
    rw [Expression.directEach]
    exact List.forall_mem_cons.mpr ⟨everywhere_direct item first, everywhere_directEach rest others⟩
termination_by sizeOf items

theorem everywhere_directRecord (literal : RecordLiteral) (everywhere : literal.Everywhere checks) :
    literal.direct.Everywhere checks := by
  match literal with
  | ⟨base, fields⟩ =>
    rw [RecordLiteral.direct]
    exact Field.everywhereEach.mpr (everywhere_directFields fields (Field.everywhereEach.mp everywhere))
termination_by sizeOf literal

theorem everywhere_directLambda (lambda : Lambda) (everywhere : lambda.Everywhere checks) : lambda.direct.Everywhere checks := by
  match lambda with
  | ⟨parameters, body⟩ =>
    rw [Lambda.direct]
    exact everywhere_direct body everywhere
termination_by sizeOf lambda

theorem everywhere_directFields (fields : List Field) (everywhere : ∀ field ∈ fields, field.value.Everywhere checks) :
    ∀ field ∈ Field.directEach fields, field.value.Everywhere checks := by
  match fields with
  | [] => simp [Field.directEach]
  | ⟨name, value⟩ :: rest =>
    obtain ⟨first, others⟩ := List.forall_mem_cons.mp everywhere
    rw [Field.directEach]
    exact List.forall_mem_cons.mpr ⟨everywhere_direct value first, everywhere_directFields rest others⟩
termination_by sizeOf fields

theorem everywhere_directBody (body : Body) (everywhere : body.Everywhere checks) : body.direct.Everywhere checks := by
  match body with
  | ⟨locals, result⟩ =>
    obtain ⟨-, locals_, result_⟩ := everywhere_body.mp everywhere
    rw [Body.direct]
    exact everywhere_body.mpr ⟨shallow.body _, everywhere_directBlocks locals locals_, everywhere_direct result result_⟩
termination_by sizeOf body

theorem everywhere_directBranches (branches : List Branch)
    (everywhere : ∀ branch ∈ branches, checks.pattern branch.pattern ∧ branch.body.Everywhere checks) :
    ∀ branch ∈ Branch.directEach branches, checks.pattern branch.pattern ∧ branch.body.Everywhere checks := by
  match branches with
  | [] => simp [Branch.directEach]
  | ⟨pattern, body⟩ :: rest =>
    obtain ⟨⟨own, first⟩, others⟩ := List.forall_mem_cons.mp everywhere
    rw [Branch.directEach]
    exact List.forall_mem_cons.mpr ⟨⟨own, everywhere_directBody body first⟩, everywhere_directBranches rest others⟩
termination_by sizeOf branches

theorem everywhere_directBlock (block : Block) (everywhere : block.Everywhere checks) : block.direct.Everywhere checks := by
  match block with
  | .function ⟨name, returnType, parameters, body⟩ =>
    rw [Block.direct]
    exact ⟨shallow.function _ everywhere.1, everywhere_directBody body everywhere.2⟩
  | .constant ⟨name, type, body⟩ =>
    rw [Block.direct]
    exact ⟨shallow.constant _ everywhere.1, everywhere_directBody body everywhere.2⟩
  | .imports _ | .exports _ | .union _ | .alias _ | .comment _ | .multilineComment _ =>
    rw [Block.direct]
    exact everywhere
termination_by sizeOf block

/-- Declarations keep what holds everywhere in them. -/
theorem everywhere_directBlocks (blocks : List Block) (everywhere : ∀ block ∈ blocks, block.Everywhere checks) :
    ∀ block ∈ Block.directEach blocks, block.Everywhere checks := by
  match blocks with
  | [] => simp [Block.directEach]
  | block :: rest =>
    obtain ⟨first, others⟩ := List.forall_mem_cons.mp everywhere
    rw [Block.directEach]
    exact List.forall_mem_cons.mpr ⟨everywhere_directBlock block first, everywhere_directBlocks rest others⟩
termination_by sizeOf blocks

end

end Direct

end DerwLang
