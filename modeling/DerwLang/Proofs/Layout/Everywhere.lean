/-
**What holds everywhere in a piece of syntax.**

Checks are conditions on single expressions, patterns, bodies and declarations (`Checks`). They hold everywhere in a piece
of syntax when they hold of it and of all that stands in it (`Expression.Everywhere`). Proofs about all syntax take one
step for each constructor (`Steps`), and the induction over expressions, bodies and declarations at once is done here.
-/

import DerwLang.Syntax.Module

namespace DerwLang

/-- Conditions on single pieces of syntax. -/
structure Checks where
  expression : Expression → Prop := fun _ => True
  pattern : Pattern → Prop := fun _ => True
  body : Body → Prop := fun _ => True
  block : Block → Prop := fun _ => True

mutual

/-- The checks hold of all that stands in the expression. The value under a reference is a part of the reference and no
expression of its own. -/
def Expression.Inside (checks : Checks) : Expression → Prop
  | .value _ | .string _ | .formatString _ | .range _ _ => True
  | .list items => Expression.EverywhereEach checks items
  | .record literal => literal.Everywhere checks
  | .conditional predicate whenTrue whenFalse =>
    (checks.expression predicate ∧ predicate.Inside checks) ∧ whenTrue.Everywhere checks ∧ whenFalse.Everywhere checks
  | .caseOf predicate branches =>
    (checks.expression predicate ∧ predicate.Inside checks) ∧ Branch.EverywhereEach checks branches
  | .binary _ left right =>
    (checks.expression left ∧ left.Inside checks) ∧ checks.expression right ∧ right.Inside checks
  | .call _ arguments => Expression.EverywhereEach checks arguments
  | .lambda lambda => lambda.Everywhere checks
  | .lambdaCall lambda arguments => lambda.Everywhere checks ∧ Expression.EverywhereEach checks arguments
  | .construct _ literal => literal.Everywhere checks
  | .reference _ value => value.Inside checks

/-- The checks hold in all of the expressions. -/
def Expression.EverywhereEach (checks : Checks) : List Expression → Prop
  | [] => True
  | item :: rest => (checks.expression item ∧ item.Inside checks) ∧ Expression.EverywhereEach checks rest

/-- The checks hold in the record literal. -/
def RecordLiteral.Everywhere (checks : Checks) : RecordLiteral → Prop
  | ⟨_, fields⟩ => Field.EverywhereEach checks fields

/-- The checks hold in all of the fields. -/
def Field.EverywhereEach (checks : Checks) : List Field → Prop
  | [] => True
  | ⟨_, value⟩ :: rest => (checks.expression value ∧ value.Inside checks) ∧ Field.EverywhereEach checks rest

/-- The checks hold in the lambda. -/
def Lambda.Everywhere (checks : Checks) : Lambda → Prop
  | ⟨_, body⟩ => checks.expression body ∧ body.Inside checks

/-- The checks hold of the body and of all that stands in it. -/
def Body.Everywhere (checks : Checks) : Body → Prop
  | ⟨locals, result⟩ =>
    checks.body ⟨locals, result⟩ ∧ Block.EverywhereEach checks locals ∧ checks.expression result ∧ result.Inside checks

/-- The checks hold in all of the branches. -/
def Branch.EverywhereEach (checks : Checks) : List Branch → Prop
  | [] => True
  | ⟨pattern, body⟩ :: rest =>
    (checks.pattern pattern ∧ body.Everywhere checks) ∧ Branch.EverywhereEach checks rest

/-- The checks hold of the declaration and of all that stands in it. -/
def Block.Everywhere (checks : Checks) : Block → Prop
  | .function ⟨name, returnType, parameters, body⟩ =>
    checks.block (.function ⟨name, returnType, parameters, body⟩) ∧ body.Everywhere checks
  | .constant ⟨name, type, body⟩ => checks.block (.constant ⟨name, type, body⟩) ∧ body.Everywhere checks
  | .imports modules => checks.block (.imports modules)
  | .exports names => checks.block (.exports names)
  | .union declared => checks.block (.union declared)
  | .alias declared => checks.block (.alias declared)
  | .comment text => checks.block (.comment text)
  | .multilineComment text => checks.block (.multilineComment text)

/-- The checks hold in all of the declarations. -/
def Block.EverywhereEach (checks : Checks) : List Block → Prop
  | [] => True
  | block :: rest => block.Everywhere checks ∧ Block.EverywhereEach checks rest

end

/-- The checks hold of the expression and of all that stands in it. -/
def Expression.Everywhere (checks : Checks) (expression : Expression) : Prop :=
  checks.expression expression ∧ expression.Inside checks

/-- The checks hold in all declarations of the module. -/
def Module.Everywhere (checks : Checks) (module : Module) : Prop :=
  ∀ block ∈ module.body, block.Everywhere checks

section Lists

variable {checks : Checks}

attribute [local simp] Expression.Everywhere Expression.EverywhereEach Field.EverywhereEach Branch.EverywhereEach
  Block.EverywhereEach

@[simp]
theorem Expression.everywhereEach {items : List Expression} :
    Expression.EverywhereEach checks items ↔ ∀ item ∈ items, item.Everywhere checks := by
  induction items <;> simp_all

@[simp]
theorem Field.everywhereEach {fields : List Field} :
    Field.EverywhereEach checks fields ↔ ∀ field ∈ fields, field.value.Everywhere checks := by
  induction fields with
  | nil => simp
  | cons field rest step =>
    cases field
    simp [step]

@[simp]
theorem Branch.everywhereEach {branches : List Branch} :
    Branch.EverywhereEach checks branches ↔
      ∀ branch ∈ branches, checks.pattern branch.pattern ∧ branch.body.Everywhere checks := by
  induction branches with
  | nil => simp
  | cons branch rest step =>
    cases branch
    simp [step]

@[simp]
theorem Block.everywhereEach {blocks : List Block} :
    Block.EverywhereEach checks blocks ↔ ∀ block ∈ blocks, block.Everywhere checks := by
  induction blocks <;> simp_all

theorem Expression.Everywhere.here {expression : Expression} (everywhere : expression.Everywhere checks) :
    checks.expression expression :=
  everywhere.1

theorem Body.Everywhere.here {body : Body} (everywhere : body.Everywhere checks) : checks.body body := by
  cases body
  exact everywhere.1

theorem Block.Everywhere.here {block : Block} (everywhere : block.Everywhere checks) : checks.block block := by
  cases block with
  | function definition => cases definition; exact everywhere.1
  | constant definition => cases definition; exact everywhere.1
  | _ => exact everywhere

end Lists

/-! ### Constructor by constructor -/

section Constructors

variable {checks : Checks}

attribute [local simp] Expression.Everywhere Expression.Inside RecordLiteral.Everywhere Lambda.Everywhere Body.Everywhere

theorem everywhere_list {items : List Expression} :
    (Expression.list items).Everywhere checks ↔
      checks.expression (.list items) ∧ ∀ item ∈ items, item.Everywhere checks := by
  simp

theorem everywhere_record {base : Option String} {fields : List Field} :
    (Expression.record ⟨base, fields⟩).Everywhere checks ↔
      checks.expression (.record ⟨base, fields⟩) ∧ ∀ field ∈ fields, field.value.Everywhere checks := by
  simp

theorem everywhere_conditional {predicate : Expression} {whenTrue whenFalse : Body} :
    (Expression.conditional predicate whenTrue whenFalse).Everywhere checks ↔
      checks.expression (.conditional predicate whenTrue whenFalse) ∧ predicate.Everywhere checks ∧
        whenTrue.Everywhere checks ∧ whenFalse.Everywhere checks := by
  simp

theorem everywhere_caseOf {predicate : Expression} {branches : List Branch} :
    (Expression.caseOf predicate branches).Everywhere checks ↔
      checks.expression (.caseOf predicate branches) ∧ predicate.Everywhere checks ∧
        ∀ branch ∈ branches, checks.pattern branch.pattern ∧ branch.body.Everywhere checks := by
  simp

theorem everywhere_binary {operator : BinaryOperator} {left right : Expression} :
    (Expression.binary operator left right).Everywhere checks ↔
      checks.expression (.binary operator left right) ∧ left.Everywhere checks ∧ right.Everywhere checks := by
  simp

theorem everywhere_call {name : String} {arguments : List Expression} :
    (Expression.call name arguments).Everywhere checks ↔
      checks.expression (.call name arguments) ∧ ∀ argument ∈ arguments, argument.Everywhere checks := by
  simp

theorem everywhere_lambda {parameters : List String} {body : Expression} :
    (Expression.lambda ⟨parameters, body⟩).Everywhere checks ↔
      checks.expression (.lambda ⟨parameters, body⟩) ∧ body.Everywhere checks := by
  simp

theorem everywhere_construct {tag : String} {base : Option String} {fields : List Field} :
    (Expression.construct tag ⟨base, fields⟩).Everywhere checks ↔
      checks.expression (.construct tag ⟨base, fields⟩) ∧ ∀ field ∈ fields, field.value.Everywhere checks := by
  simp

theorem everywhere_reference_call {path : List String} {name : String} {arguments : List Expression} :
    (Expression.reference path (.call name arguments)).Everywhere checks ↔
      checks.expression (.reference path (.call name arguments)) ∧
        ∀ argument ∈ arguments, argument.Everywhere checks := by
  simp

theorem everywhere_body {locals : List Block} {result : Expression} :
    (Body.mk locals result).Everywhere checks ↔
      checks.body ⟨locals, result⟩ ∧ (∀ block ∈ locals, block.Everywhere checks) ∧ result.Everywhere checks := by
  simp

end Constructors

/-! ## Induction -/

/-- The steps of a proof about all expressions, bodies and declarations, one for each way to make them. -/
structure Steps (E : Expression → Prop) (B : Body → Prop) (D : Block → Prop) : Prop where
  value : ∀ text, E (.value text)
  string : ∀ text, E (.string text)
  formatString : ∀ text, E (.formatString text)
  list : ∀ items, (∀ item ∈ items, E item) → E (.list items)
  range : ∀ first last, E (.range first last)
  record : ∀ base fields, (∀ field ∈ fields, E field.value) → E (.record ⟨base, fields⟩)
  conditional : ∀ predicate whenTrue whenFalse, E predicate → B whenTrue → B whenFalse →
    E (.conditional predicate whenTrue whenFalse)
  caseOf : ∀ predicate branches, E predicate → (∀ branch ∈ branches, B branch.body) → E (.caseOf predicate branches)
  binary : ∀ operator left right, E left → E right → E (.binary operator left right)
  call : ∀ name arguments, (∀ argument ∈ arguments, E argument) → E (.call name arguments)
  lambda : ∀ parameters body, E body → E (.lambda ⟨parameters, body⟩)
  lambdaCall : ∀ parameters body arguments, E body → (∀ argument ∈ arguments, E argument) →
    E (.lambdaCall ⟨parameters, body⟩ arguments)
  construct : ∀ tag base fields, (∀ field ∈ fields, E field.value) → E (.construct tag ⟨base, fields⟩)
  reference : ∀ path value, (∀ name arguments, value = .call name arguments → ∀ argument ∈ arguments, E argument) →
    E value → E (.reference path value)
  body : ∀ locals result, (∀ block ∈ locals, D block) → E result → B ⟨locals, result⟩
  function : ∀ name returnType parameters body, B body → D (.function ⟨name, returnType, parameters, body⟩)
  constant : ∀ name type body, B body → D (.constant ⟨name, type, body⟩)
  imports : ∀ modules, D (.imports modules)
  exports : ∀ names, D (.exports names)
  union : ∀ declared, D (.union declared)
  typeAlias : ∀ declared, D (.alias declared)
  comment : ∀ text, D (.comment text)
  multilineComment : ∀ text, D (.multilineComment text)

namespace Steps

variable {E : Expression → Prop} {B : Body → Prop} {D : Block → Prop}

mutual

/-- What has its steps holds of every expression. -/
theorem expression (steps : Steps E B D) : ∀ expression : Expression, E expression
  | .value text => steps.value text
  | .string text => steps.string text
  | .formatString text => steps.formatString text
  | .list items => steps.list items (steps.expressions items)
  | .range first last => steps.range first last
  | .record ⟨base, fields⟩ => steps.record base fields (steps.fields fields)
  | .conditional predicate whenTrue whenFalse =>
    steps.conditional predicate whenTrue whenFalse (steps.expression predicate) (steps.bodies whenTrue)
      (steps.bodies whenFalse)
  | .caseOf predicate branches =>
    steps.caseOf predicate branches (steps.expression predicate) (steps.branches branches)
  | .binary operator left right =>
    steps.binary operator left right (steps.expression left) (steps.expression right)
  | .call name arguments => steps.call name arguments (steps.expressions arguments)
  | .lambda ⟨parameters, body⟩ => steps.lambda parameters body (steps.expression body)
  | .lambdaCall ⟨parameters, body⟩ arguments =>
    steps.lambdaCall parameters body arguments (steps.expression body) (steps.expressions arguments)
  | .construct tag ⟨base, fields⟩ => steps.construct tag base fields (steps.fields fields)
  | .reference path value => steps.reference path value (steps.argumentsOf value) (steps.expression value)

theorem argumentsOf (steps : Steps E B D) : ∀ value : Expression, ∀ name arguments,
    value = .call name arguments → ∀ argument ∈ arguments, E argument
  | .call _ items => fun _ _ same => (Expression.call.inj same).2 ▸ steps.expressions items
  | .value _ | .string _ | .formatString _ | .list _ | .range _ _ | .record _ | .conditional _ _ _ | .caseOf _ _
  | .binary _ _ _ | .lambda _ | .lambdaCall _ _ | .construct _ _ | .reference _ _ => nofun

theorem expressions (steps : Steps E B D) : ∀ items : List Expression, ∀ item ∈ items, E item
  | [] => fun _ member => absurd member List.not_mem_nil
  | item :: rest => List.forall_mem_cons.mpr ⟨steps.expression item, steps.expressions rest⟩

theorem fields (steps : Steps E B D) : ∀ fields : List Field, ∀ field ∈ fields, E field.value
  | [] => fun _ member => absurd member List.not_mem_nil
  | ⟨_, value⟩ :: rest => List.forall_mem_cons.mpr ⟨steps.expression value, steps.fields rest⟩

/-- What has its steps holds of every body. -/
theorem bodies (steps : Steps E B D) : ∀ body : Body, B body
  | ⟨locals, result⟩ => steps.body locals result (steps.blocks locals) (steps.expression result)

theorem branches (steps : Steps E B D) : ∀ branches : List Branch, ∀ branch ∈ branches, B branch.body
  | [] => fun _ member => absurd member List.not_mem_nil
  | ⟨_, body⟩ :: rest => List.forall_mem_cons.mpr ⟨steps.bodies body, steps.branches rest⟩

/-- What has its steps holds of every declaration. -/
theorem block (steps : Steps E B D) : ∀ block : Block, D block
  | .function ⟨name, returnType, parameters, body⟩ =>
    steps.function name returnType parameters body (steps.bodies body)
  | .constant ⟨name, type, body⟩ => steps.constant name type body (steps.bodies body)
  | .imports modules => steps.imports modules
  | .exports names => steps.exports names
  | .union declared => steps.union declared
  | .alias declared => steps.typeAlias declared
  | .comment text => steps.comment text
  | .multilineComment text => steps.multilineComment text

theorem blocks (steps : Steps E B D) : ∀ blocks : List Block, ∀ block ∈ blocks, D block
  | [] => fun _ member => absurd member List.not_mem_nil
  | block :: rest => List.forall_mem_cons.mpr ⟨steps.block block, steps.blocks rest⟩

end

end Steps

/-! ## Consequences -/

/-- The conditions of `result` follow from those of `first` and `second`. -/
structure Checks.Follows (first second result : Checks) : Prop where
  expression : ∀ e, first.expression e → second.expression e → result.expression e
  pattern : ∀ shape, first.pattern shape → second.pattern shape → result.pattern shape
  body : ∀ body, first.body body → second.body body → result.body body
  block : ∀ block, first.block block → second.block block → result.block block

section Follows

variable {first second result : Checks} (follows : Checks.Follows first second result)

include follows

theorem Checks.Follows.each {items : List Expression}
    (step : ∀ item ∈ items, item.Inside first → item.Inside second → item.Inside result)
    (one : Expression.EverywhereEach first items) (two : Expression.EverywhereEach second items) :
    Expression.EverywhereEach result items :=
  Expression.everywhereEach.mpr fun item member =>
    have here := Expression.everywhereEach.mp one item member
    have there := Expression.everywhereEach.mp two item member
    ⟨follows.expression item here.1 there.1, step item member here.2 there.2⟩

theorem Checks.Follows.fields {fields : List Field}
    (step : ∀ field ∈ fields, field.value.Inside first → field.value.Inside second → field.value.Inside result)
    (one : Field.EverywhereEach first fields) (two : Field.EverywhereEach second fields) :
    Field.EverywhereEach result fields :=
  Field.everywhereEach.mpr fun field member =>
    have here := Field.everywhereEach.mp one field member
    have there := Field.everywhereEach.mp two field member
    ⟨follows.expression field.value here.1 there.1, step field member here.2 there.2⟩

/-- What follows from two conditions holds in all that stands where both of them hold. -/
theorem Checks.Follows.steps :
    Steps (fun e => e.Inside first → e.Inside second → e.Inside result)
      (fun body => body.Everywhere first → body.Everywhere second → body.Everywhere result)
      (fun block => block.Everywhere first → block.Everywhere second → block.Everywhere result) where
  value _ _ _ := trivial
  string _ _ _ := trivial
  formatString _ _ _ := trivial
  range _ _ _ _ := trivial
  list _ := follows.each
  record _ _ := follows.fields
  conditional _ _ _ test yes no one two :=
    ⟨⟨follows.expression _ one.1.1 two.1.1, test one.1.2 two.1.2⟩, yes one.2.1 two.2.1, no one.2.2 two.2.2⟩
  caseOf _ _ value step one two :=
    ⟨⟨follows.expression _ one.1.1 two.1.1, value one.1.2 two.1.2⟩, Branch.everywhereEach.mpr fun branch member =>
      have here := Branch.everywhereEach.mp one.2 branch member
      have there := Branch.everywhereEach.mp two.2 branch member
      ⟨follows.pattern _ here.1 there.1, step branch member here.2 there.2⟩⟩
  binary _ _ _ left right one two :=
    ⟨⟨follows.expression _ one.1.1 two.1.1, left one.1.2 two.1.2⟩, follows.expression _ one.2.1 two.2.1, right one.2.2 two.2.2⟩
  call _ _ := follows.each
  lambda _ _ step one two := ⟨follows.expression _ one.1 two.1, step one.2 two.2⟩
  lambdaCall _ _ _ inner step one two :=
    ⟨⟨follows.expression _ one.1.1 two.1.1, inner one.1.2 two.1.2⟩, follows.each step one.2 two.2⟩
  construct _ _ _ := follows.fields
  reference _ _ _ step := step
  body _ _ declarations step one two :=
    have here := everywhere_body.mp one
    have there := everywhere_body.mp two
    everywhere_body.mpr ⟨follows.body _ here.1 there.1,
      fun block member => declarations block member (here.2.1 block member) (there.2.1 block member),
      follows.expression _ here.2.2.1 there.2.2.1, step here.2.2.2 there.2.2.2⟩
  function _ _ _ _ step one two := ⟨follows.block _ one.1 two.1, step one.2 two.2⟩
  constant _ _ _ step one two := ⟨follows.block _ one.1 two.1, step one.2 two.2⟩
  imports _ := follows.block _
  exports _ := follows.block _
  union _ := follows.block _
  typeAlias _ := follows.block _
  comment _ := follows.block _
  multilineComment _ := follows.block _

/-- **What follows from two conditions holds everywhere in a module where both of them do.** -/
theorem Module.Everywhere.both {module : Module} (one : module.Everywhere first) (two : module.Everywhere second) :
    module.Everywhere result :=
  fun block member => follows.steps.block block (one block member) (two block member)

end Follows

end DerwLang
