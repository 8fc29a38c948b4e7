/-
**Modules without their types.**

`Module.untyped` forgets the types of a module: arguments, results, constants, properties and the fields of tags are `any`,
unions keep their name alone, and aliases keep what is asked for of what they are declared as. Two modules differ only in
types when nothing tells them apart after that.

`direct_untyped`: writing pipes as application does not look at types, everywhere in a module.
-/

import DerwLang.Syntax.Module
import DerwLang.Syntax.Pipes

namespace DerwLang

/-! ## Forgetting types -/

/-- The type without its parameters. -/
def Ty.bare : Ty → Ty
  | .variable name => .variable name
  | .named name _ => .plain name
  | .function _ => .function []

/-- The name of the field or property alone. -/
def TypedField.untyped (field : TypedField) : TypedField :=
  ⟨field.name, .any⟩

/-- The tag with the names of its fields alone. -/
def Tag.untyped (tag : Tag) : Tag :=
  ⟨tag.name, tag.fields.map TypedField.untyped⟩

/-- The union with its name and its tags alone. -/
def UnionType.untyped (union : UnionType) : UnionType :=
  ⟨union.type.bare, union.tags.map Tag.untyped⟩

/-- The alias with its properties alone, and what is kept of what it is declared as. -/
def TypeAlias.untyped (heading : Ty → Ty) (named : TypeAlias) : TypeAlias :=
  ⟨heading named.type, named.properties.map TypedField.untyped⟩

/-- The argument with its name or index alone. -/
def Parameter.untyped : Parameter → Parameter
  | .named name _ => .named name .any
  | .anonymous index _ => .anonymous index .any

mutual

/-- The expression without the types of the definitions in it. -/
def Expression.untyped (heading : Ty → Ty) : Expression → Expression
  | .value text => .value text
  | .string text => .string text
  | .formatString text => .formatString text
  | .list items => .list (Expression.untypedEach heading items)
  | .range first last => .range first last
  | .record literal => .record (literal.untyped heading)
  | .conditional predicate whenTrue whenFalse =>
    .conditional (predicate.untyped heading) (whenTrue.untyped heading) (whenFalse.untyped heading)
  | .caseOf predicate branches => .caseOf (predicate.untyped heading) (Branch.untypedEach heading branches)
  | .binary operator left right => .binary operator (left.untyped heading) (right.untyped heading)
  | .call name arguments => .call name (Expression.untypedEach heading arguments)
  | .lambda lambda => .lambda (lambda.untyped heading)
  | .lambdaCall lambda arguments => .lambdaCall (lambda.untyped heading) (Expression.untypedEach heading arguments)
  | .construct tag literal => .construct tag (literal.untyped heading)
  | .reference path value => .reference path (value.untyped heading)

/-- The expressions without types. -/
def Expression.untypedEach (heading : Ty → Ty) : List Expression → List Expression
  | [] => []
  | item :: rest => item.untyped heading :: Expression.untypedEach heading rest

/-- The record literal without types. -/
def RecordLiteral.untyped (heading : Ty → Ty) : RecordLiteral → RecordLiteral
  | ⟨base, fields⟩ => ⟨base, Field.untypedEach heading fields⟩

/-- The fields without types. -/
def Field.untypedEach (heading : Ty → Ty) : List Field → List Field
  | [] => []
  | ⟨name, value⟩ :: rest => ⟨name, value.untyped heading⟩ :: Field.untypedEach heading rest

/-- The lambda without types. -/
def Lambda.untyped (heading : Ty → Ty) : Lambda → Lambda
  | ⟨parameters, body⟩ => ⟨parameters, body.untyped heading⟩

/-- The body without types. -/
def Body.untyped (heading : Ty → Ty) : Body → Body
  | ⟨locals, result⟩ => ⟨Block.untypedEach heading locals, result.untyped heading⟩

/-- The branches without types. -/
def Branch.untypedEach (heading : Ty → Ty) : List Branch → List Branch
  | [] => []
  | ⟨pattern, body⟩ :: rest => ⟨pattern, body.untyped heading⟩ :: Branch.untypedEach heading rest

/-- The declaration without types. -/
def Block.untyped (heading : Ty → Ty) : Block → Block
  | .function ⟨name, _, parameters, body⟩ =>
    .function ⟨name, .any, parameters.map Parameter.untyped, body.untyped heading⟩
  | .constant ⟨name, _, body⟩ => .constant ⟨name, .any, body.untyped heading⟩
  | .imports modules => .imports modules
  | .exports names => .exports names
  | .union declared => .union declared.untyped
  | .alias declared => .alias (declared.untyped heading)
  | .comment text => .comment text
  | .multilineComment text => .multilineComment text

/-- The declarations without types. -/
def Block.untypedEach (heading : Ty → Ty) : List Block → List Block
  | [] => []
  | block :: rest => block.untyped heading :: Block.untypedEach heading rest

end

/-- The module without types. -/
def Module.untyped (heading : Ty → Ty) (module : Module) : Module :=
  ⟨module.name, Block.untypedEach heading module.body, module.errors⟩

section

variable {heading : Ty → Ty}

@[simp]
theorem Expression.untypedEach_eq_map (items : List Expression) :
    Expression.untypedEach heading items = items.map (·.untyped heading) := by
  induction items with
  | nil => rfl
  | cons item rest step => simp [Expression.untypedEach, step]

@[simp]
theorem Block.isEmpty_untypedEach (blocks : List Block) :
    (Block.untypedEach heading blocks).isEmpty = blocks.isEmpty := by
  cases blocks <;> rfl

/-- The names that a module defines are not types. -/
theorem Module.definedNames_untyped (module : Module) :
    (module.untyped heading).definedNames = module.definedNames := by
  obtain ⟨name, blocks, errors⟩ := module
  simp only [Module.untyped, Module.definedNames]
  induction blocks with
  | nil => rfl
  | cons block rest step =>
    rw [Block.untypedEach, List.filterMap_cons, List.filterMap_cons, step]
    cases block with
    | function definition => cases definition; rfl
    | constant definition => cases definition; rfl
    | _ => rfl

theorem Module.testExports?_untyped (module : Module) :
    (module.untyped heading).testExports? = module.testExports? := by
  rw [Module.testExports?, Module.definedNames_untyped]
  rfl

/-! ## Pipes as application -/

/-- Whether a function takes one more argument has nothing to do with types. -/
theorem Expression.appliedTo?_untyped (function argument : Expression) :
    (function.untyped heading).appliedTo? (argument.untyped heading) =
      (function.appliedTo? argument).map (·.untyped heading) := by
  fun_induction Expression.appliedTo? function argument with
  | case1 name argument => simp [Expression.untyped, Expression.appliedTo?]
  | case2 name arguments argument => simp [Expression.untyped, Expression.appliedTo?]
  | case3 path inner argument step =>
    rw [Expression.untyped, Expression.appliedTo?, step, Option.map_map, Option.map_map]
    rfl
  | case4 lambda argument => simp [Expression.untyped, Expression.appliedTo?]
  | case5 lambda arguments argument => simp [Expression.untyped, Expression.appliedTo?]
  | case6 function argument notValue notCall notReference notLambda notLambdaCall =>
    cases function with
    | value text => exact absurd rfl (notValue text)
    | call name arguments => exact absurd rfl (notCall name arguments)
    | reference path value => exact absurd rfl (notReference path value)
    | lambda body => exact absurd rfl (notLambda body)
    | lambdaCall body arguments => exact absurd rfl (notLambdaCall body arguments)
    | _ => rfl

/-- Writing the pipes at the head of an expression as application has nothing to do with types. -/
theorem Expression.flattenPipes_untyped (expression : Expression) :
    (expression.untyped heading).flattenPipes = expression.flattenPipes.untyped heading := by
  fun_induction Expression.flattenPipes expression with
  | case1 argument function functionStep argumentStep =>
    rw [Expression.untyped, Expression.flattenPipes, functionStep, argumentStep, Expression.appliedTo?_untyped]
    cases function.flattenPipes.appliedTo? argument.flattenPipes <;> simp [Expression.untyped]
  | case2 function argument functionStep argumentStep =>
    rw [Expression.untyped, Expression.flattenPipes, functionStep, argumentStep, Expression.appliedTo?_untyped]
    cases function.flattenPipes.appliedTo? argument.flattenPipes <;> simp [Expression.untyped]
  | case3 expression notInto notFrom =>
    cases expression with
    | binary operator left right =>
      cases operator with
      | pipeInto => exact absurd rfl (notInto left right)
      | pipeFrom => exact absurd rfl (notFrom left right)
      | _ => rfl
    | _ => rfl

/-- The parts of an expression with pipes written as application, its head being done. -/
def Expression.inward : Expression → Expression
  | .value text => .value text
  | .string text => .string text
  | .formatString text => .formatString text
  | .list items => .list (Expression.directEach items)
  | .range first last => .range first last
  | .record literal => .record literal.direct
  | .conditional predicate whenTrue whenFalse => .conditional predicate.direct whenTrue.direct whenFalse.direct
  | .caseOf predicate branches => .caseOf predicate.direct (Branch.directEach branches)
  | .binary operator left right => .binary operator left.direct right.direct
  | .call name arguments => .call name (Expression.directEach arguments)
  | .lambda inner => .lambda inner.direct
  | .lambdaCall inner arguments => .lambdaCall inner.direct (Expression.directEach arguments)
  | .construct tag literal => .construct tag literal.direct
  | .reference path inner => .reference path inner.direct

/-- Pipes are written as application first at the head and then in the parts of what that gives. -/
theorem Expression.direct_eq (expression : Expression) : expression.direct = expression.flattenPipes.inward := by
  rw [Expression.direct]
  split <;> simp only [*, Expression.inward]

mutual

/-- **Writing pipes as application does not look at types.** -/
theorem Expression.direct_untyped (expression : Expression) :
    (expression.untyped heading).direct = expression.direct.untyped heading := by
  have smaller := expression.sizeOf_flattenPipes
  rw [Expression.direct_eq, Expression.direct_eq, Expression.flattenPipes_untyped]
  cases same : expression.flattenPipes <;> simp only [Expression.untyped, Expression.inward]
  case list items => rw [Expression.directEach_untyped items]
  case record literal => rw [literal.direct_untyped]
  case conditional predicate whenTrue whenFalse =>
    rw [predicate.direct_untyped, whenTrue.direct_untyped, whenFalse.direct_untyped]
  case caseOf predicate branches => rw [predicate.direct_untyped, Branch.directEach_untyped branches]
  case binary operator left right => rw [left.direct_untyped, right.direct_untyped]
  case call name arguments => rw [Expression.directEach_untyped arguments]
  case lambda lambda => rw [lambda.direct_untyped]
  case lambdaCall lambda arguments => rw [lambda.direct_untyped, Expression.directEach_untyped arguments]
  case construct tag literal => rw [literal.direct_untyped]
  case reference path value => rw [value.direct_untyped]
termination_by sizeOf expression
decreasing_by
  all_goals
    simp only [same] at smaller
    simp at smaller
    omega

theorem Expression.directEach_untyped (items : List Expression) :
    Expression.directEach (Expression.untypedEach heading items) =
      Expression.untypedEach heading (Expression.directEach items) := by
  match items with
  | [] => simp [Expression.untypedEach, Expression.directEach]
  | item :: rest =>
    rw [Expression.untypedEach, Expression.directEach, Expression.directEach, Expression.untypedEach,
      item.direct_untyped, Expression.directEach_untyped rest]
termination_by sizeOf items

theorem RecordLiteral.direct_untyped (literal : RecordLiteral) :
    (literal.untyped heading).direct = literal.direct.untyped heading := by
  match literal with
  | ⟨base, fields⟩ =>
    rw [RecordLiteral.untyped, RecordLiteral.direct, RecordLiteral.direct, RecordLiteral.untyped,
      Field.directEach_untyped fields]
termination_by sizeOf literal

theorem Field.directEach_untyped (fields : List Field) :
    Field.directEach (Field.untypedEach heading fields) = Field.untypedEach heading (Field.directEach fields) := by
  match fields with
  | [] => simp [Field.untypedEach, Field.directEach]
  | ⟨name, value⟩ :: rest =>
    rw [Field.untypedEach, Field.directEach, Field.directEach, Field.untypedEach, value.direct_untyped,
      Field.directEach_untyped rest]
termination_by sizeOf fields

theorem Lambda.direct_untyped (lambda : Lambda) :
    (lambda.untyped heading).direct = lambda.direct.untyped heading := by
  match lambda with
  | ⟨parameters, body⟩ =>
    rw [Lambda.untyped, Lambda.direct, Lambda.direct, Lambda.untyped, body.direct_untyped]
termination_by sizeOf lambda

theorem Body.direct_untyped (body : Body) : (body.untyped heading).direct = body.direct.untyped heading := by
  match body with
  | ⟨locals, result⟩ =>
    rw [Body.untyped, Body.direct, Body.direct, Body.untyped, Block.directEach_untyped locals, result.direct_untyped]
termination_by sizeOf body

theorem Branch.directEach_untyped (branches : List Branch) :
    Branch.directEach (Branch.untypedEach heading branches) =
      Branch.untypedEach heading (Branch.directEach branches) := by
  match branches with
  | [] => simp [Branch.untypedEach, Branch.directEach]
  | ⟨pattern, body⟩ :: rest =>
    rw [Branch.untypedEach, Branch.directEach, Branch.directEach, Branch.untypedEach, body.direct_untyped,
      Branch.directEach_untyped rest]
termination_by sizeOf branches

theorem Block.direct_untyped (block : Block) : (block.untyped heading).direct = block.direct.untyped heading := by
  match block with
  | .function ⟨name, returnType, parameters, body⟩ =>
    rw [Block.untyped, Block.direct, Block.direct, Block.untyped, body.direct_untyped]
  | .constant ⟨name, type, body⟩ =>
    rw [Block.untyped, Block.direct, Block.direct, Block.untyped, body.direct_untyped]
  | .imports _ | .exports _ | .comment _ | .multilineComment _ => rw [Block.untyped, Block.direct, Block.untyped]
  | .union _ | .alias _ => rw [Block.untyped, Block.direct, Block.direct, Block.untyped]
termination_by sizeOf block

theorem Block.directEach_untyped (blocks : List Block) :
    Block.directEach (Block.untypedEach heading blocks) = Block.untypedEach heading (Block.directEach blocks) := by
  match blocks with
  | [] => simp [Block.untypedEach, Block.directEach]
  | block :: rest =>
    rw [Block.untypedEach, Block.directEach, Block.directEach, Block.untypedEach, block.direct_untyped,
      Block.directEach_untyped rest]
termination_by sizeOf blocks

end

end

end DerwLang
