/-
**JavaScript without types.**

`module_untyped`: the JavaScript text of a module is that of the module without its types, aliases being kept as they are
written. So modules that differ in nothing else have one text (`module_eq_of_untyped_eq`).

The heading of an alias is what does not go away: its type variables stand behind the name of its function
(`parameters_stay`), where no JavaScript allows them.
-/

import DerwLang.Ecma.Module
import DerwLang.Proofs.Types.Untyped

namespace DerwLang.Ecma

/-- The type whose name is what is written of the type in a declaration. -/
def asWritten (type : Ty) : Ty :=
  .variable (declared type)

/-! ## Declarations without expressions -/

theorem tagText_untyped (tag : Tag) : tagText .javaScript tag.untyped = tagText .javaScript tag := by
  unfold tagText tagBody Tag.untyped
  dsimp only

theorem unionText_untyped (union : UnionType) :
    unionText .javaScript union.untyped = unionText .javaScript union := by
  have tags : tagText .javaScript ∘ Tag.untyped = tagText .javaScript := funext tagText_untyped
  unfold unionText UnionType.untyped
  simp only [List.map_map, tags, Dialect.typed, Bool.false_eq_true, if_false]

theorem aliasText_untyped (named : TypeAlias) :
    aliasText .javaScript (named.untyped asWritten) = aliasText .javaScript named := by
  unfold aliasText TypeAlias.untyped asWritten
  simp only [declared]

theorem definitionHead_untyped (name : String) (parameters : List Parameter) (type other : Ty) :
    definitionHead .javaScript name (parameters.map Parameter.untyped) type =
      definitionHead .javaScript name parameters other := by
  have same : parameter .javaScript ∘ Parameter.untyped = parameter .javaScript := by
    funext argument
    cases argument <;> rfl
  have texts : (parameters.map Parameter.untyped).map (parameter .javaScript) =
      parameters.map (parameter .javaScript) := by
    rw [List.map_map, same]
  rw [definitionHead, definitionHead, texts]
  rfl

theorem binder_untyped (name : String) (type other : Ty) :
    binder .javaScript name type = binder .javaScript name other :=
  rfl

/-! ## Expressions -/

mutual

/-- **What an expression is lowered to has no types in it.** -/
theorem lower_untyped (atEnd : Bool) : ∀ expression : Expression,
    lower .javaScript atEnd (expression.untyped asWritten) = lower .javaScript atEnd expression
  | .value _ | .string _ | .formatString _ | .range _ _ => by rw [Expression.untyped]
  | .list items => by rw [Expression.untyped, lower, lower, lowerEach_untyped items]
  | .record ⟨base, fields⟩ => by
    rw [Expression.untyped, RecordLiteral.untyped, lower, lower, lowerFields_untyped fields]
  | .conditional predicate ⟨yesLocals, yes⟩ ⟨noLocals, no⟩ => by
    rw [Expression.untyped, Body.untyped, Body.untyped, lower, lower, Block.isEmpty_untypedEach,
      Block.isEmpty_untypedEach, lower_untyped false predicate, lower_untyped true yes, lower_untyped true no,
      lower_untyped false yes, lower_untyped false no, lowerBlocks_untyped yesLocals, lowerBlocks_untyped noLocals]
  | .caseOf predicate branches => by
    rw [Expression.untyped, lower, lower, lower_untyped false predicate, lowerBranches_untyped branches]
  | .binary operator left right => by
    by_cases pipe : operator = .pipeInto
    · subst pipe
      rw [Expression.untyped, lower, lower, lower_untyped false left, lower_untyped false right]
    · rw [Expression.untyped, lower, lower, lower_untyped false left, lower_untyped false right]
      · exact pipe
      · exact pipe
  | .call name arguments => by rw [Expression.untyped, lower, lower, lowerEach_untyped arguments]
  | .lambda ⟨parameters, body⟩ => by
    rw [Expression.untyped, Lambda.untyped, lower, lower, lower_untyped true body]
  | .lambdaCall ⟨parameters, body⟩ arguments => by
    rw [Expression.untyped, Lambda.untyped, lower, lower, lower_untyped true body, lowerEach_untyped arguments]
  | .construct tag ⟨base, fields⟩ => by
    rw [Expression.untyped, RecordLiteral.untyped, lower, lower, lowerFields_untyped fields]
  | .reference path value => by rw [Expression.untyped, lower, lower, lower_untyped false value]

theorem lowerEach_untyped : ∀ items : List Expression,
    lowerEach .javaScript (Expression.untypedEach asWritten items) = lowerEach .javaScript items
  | [] => rfl
  | item :: rest => by
    rw [Expression.untypedEach, lowerEach, lowerEach, lower_untyped false item, lowerEach_untyped rest]

theorem lowerFields_untyped : ∀ fields : List Field,
    lowerFields .javaScript (Field.untypedEach asWritten fields) = lowerFields .javaScript fields
  | [] => rfl
  | ⟨name, value⟩ :: rest => by
    rw [Field.untypedEach, lowerFields, lowerFields, lower_untyped false value, lowerFields_untyped rest]

theorem lowerBranches_untyped : ∀ branches : List Branch,
    lowerBranches .javaScript (Branch.untypedEach asWritten branches) = lowerBranches .javaScript branches
  | [] => rfl
  | ⟨pattern, ⟨locals, result⟩⟩ :: rest => by
    rw [Branch.untypedEach, Body.untyped, lowerBranches, lowerBranches, lowerBlocks_untyped locals,
      lower_untyped true result, lowerBranches_untyped rest]

theorem lowerBlock_untyped : ∀ block : Block,
    lowerBlock .javaScript (block.untyped asWritten) = lowerBlock .javaScript block
  | .imports _ | .exports _ | .comment _ | .multilineComment _ => by rw [Block.untyped]
  | .union declared => by rw [Block.untyped, lowerBlock, lowerBlock, unionText_untyped]
  | .alias declared => by rw [Block.untyped, lowerBlock, lowerBlock, aliasText_untyped]
  | .function ⟨name, returnType, parameters, ⟨locals, result⟩⟩ => by
    rw [Block.untyped, Body.untyped, lowerBlock, lowerBlock, definitionHead_untyped name parameters .any returnType,
      lowerBlocks_untyped locals, lower_untyped true result]
  | .constant ⟨name, type, ⟨locals, result⟩⟩ => by
    rw [Block.untyped, Body.untyped, lowerBlock, lowerBlock, binder_untyped name .any type, Block.isEmpty_untypedEach,
      lower_untyped false result, lower_untyped true result, lowerBlocks_untyped locals]

theorem lowerBlocks_untyped : ∀ blocks : List Block,
    lowerBlocks .javaScript (Block.untypedEach asWritten blocks) = lowerBlocks .javaScript blocks
  | [] => rfl
  | block :: rest => by
    rw [Block.untypedEach, lowerBlocks, lowerBlocks, lowerBlock_untyped block, lowerBlocks_untyped rest]

end

/-! ## Modules -/

theorem declarations_untyped (blocks : List Block) :
    declarations .javaScript (Block.untypedEach asWritten blocks) = declarations .javaScript blocks := by
  induction blocks with
  | nil => rfl
  | cons block rest step => rw [Block.untypedEach, declarations, declarations, lowerBlock_untyped, step]

/-- **The JavaScript text of a module is that of the module without its types**, aliases being kept as they are written. -/
theorem module_untyped (source : Module) :
    module .javaScript (source.untyped asWritten) = module .javaScript source := by
  have body : declarations .javaScript (Block.directEach (source.untyped asWritten).body) =
      declarations .javaScript (Block.directEach source.body) := by
    rw [Module.untyped, Block.directEach_untyped, declarations_untyped]
  rw [module, module, moduleDeclarations, moduleDeclarations, Module.testExports?_untyped, body]

/-- **Modules that differ only in types have one JavaScript text**, if their aliases are written as they are. -/
theorem module_eq_of_untyped_eq {first second : Module}
    (same : first.untyped asWritten = second.untyped asWritten) :
    module .javaScript first = module .javaScript second := by
  rw [← module_untyped first, same, module_untyped]

/-! ## Modules with other types -/

/-- A union, an alias with one type variable and one other parameter, and a function with a local constant, with a type of
values and a type of contents. -/
def shelf (value content : Ty) : Module :=
  ⟨"Main",
    [.union ⟨.named "Shape" [content], [⟨"Circle", [⟨"radius", value⟩]⟩]⟩,
      .alias ⟨.named "Box" [.variable "a", .named "Maybe" [content]], [⟨"value", content⟩]⟩,
      .function ⟨"twice", content, [.named "x" value],
        ⟨[.constant ⟨"y", value, ⟨[], .value "x"⟩⟩], .binary .pipeInto (.value "y") (.lambda ⟨["z"], .value "z"⟩)⟩⟩],
    []⟩

/-- The shelf of numbers and the shelf of texts have one JavaScript text. -/
theorem module_eq_of_untyped_eq_shelf :
    (shelf .number .any).untyped asWritten = (shelf .string (.list .string)).untyped asWritten ∧
      module .javaScript (shelf .number .any) = module .javaScript (shelf .string (.list .string)) := by
  have same : (shelf .number .any).untyped asWritten = (shelf .string (.list .string)).untyped asWritten := rfl
  exact ⟨same, module_eq_of_untyped_eq same⟩

/-! ## Aliases with other parameters -/

/-- `type alias Box a = { value: number }`, or with other parameters. -/
def boxes (parameters : List Ty) : Module :=
  ⟨"Main", [.alias ⟨.named "Box" parameters, [⟨"value", .number⟩]⟩], []⟩

/-- The text of a module without tests in which no pipe is left. -/
theorem module_of_direct {dialect : Dialect} {source : Module} (direct : Block.directEach source.body = source.body)
    (exports : source.testExports? = none) :
    module dialect source = String.intercalate "\n\n"
      ((((declarations dialect source.body).run {}).1.map (Declaration.text dialect)).filter fun text => !text.isEmpty) := by
  simp only [module, moduleDeclarations, direct, exports, Option.map_none, Option.toList_none, List.nil_append]

/-- **The type variables of an alias stay in its JavaScript**: the function is `Box<a>` for an alias with a parameter, and
`Box` for one without. -/
theorem parameters_stay :
    (boxes [.variable "a"]).untyped Ty.bare = (boxes []).untyped Ty.bare ∧
      module .javaScript (boxes [.variable "a"]) ≠ module .javaScript (boxes []) := by
  refine ⟨rfl, ?_⟩
  rw [module_of_direct (by simp [boxes, Block.directEach, Block.direct]) (by decide),
    module_of_direct (by simp [boxes, Block.directEach, Block.direct]) (by decide)]
  decide

end DerwLang.Ecma
