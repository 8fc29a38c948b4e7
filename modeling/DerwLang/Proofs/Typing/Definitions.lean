/-
**Definitions are checked one by one.**

What the check says of a definition depends on its name, its declared type and its value, and of the rest of the module on
nothing but the set of its unions, as long as no tag is declared by two of them.

* `tagType_congr`: unions that declare no tag twice give each tag one type in every order;
* `Expression.infer_congr`: inference asks the unions for nothing else;
* `entries_foldl_checkModule`: a checker that has seen several modules holds what each of them gives alone;
* `check_per_definition`: each definition has one error at most, wherever the blocks of its module stand.
-/

import Mathlib.Data.List.Pairwise
import Mathlib.Data.List.Perm.Basic
import DerwLang.Typing.Check

namespace DerwLang

/-! ## Unions -/

/-- The union has the tag. -/
def UnionType.declares (union : UnionType) (tag : String) : Bool :=
  union.tags.any fun declared => declared.name == tag

/-- No tag is declared by two of the unions. -/
def TagsApart (unions : List UnionType) : Prop :=
  unions.Pairwise fun first second => ∀ tag, ¬ (first.declares tag = true ∧ second.declares tag = true)

/-- The unions are the same ones, in any order. -/
def SameUnions (unions others : List UnionType) : Prop :=
  ∀ union, union ∈ unions ↔ union ∈ others

section

variable {unions others : List UnionType}

theorem TagsApart.eq_of_declares (apart : TagsApart unions) {first second : UnionType} (one : first ∈ unions)
    (two : second ∈ unions) {tag : String} (declares : first.declares tag = true)
    (declaresToo : second.declares tag = true) : first = second := by
  have symmetric : Std.Symm fun first second : UnionType =>
      ∀ tag, first.declares tag = true → second.declares tag = true → first = second :=
    ⟨fun _ _ alone tag declares declaresToo => (alone tag declaresToo declares).symm⟩
  have pairs : unions.Pairwise fun first second : UnionType =>
      ∀ tag, first.declares tag = true → second.declares tag = true → first = second :=
    apart.imp fun never tag declares declaresToo => absurd ⟨declares, declaresToo⟩ (never tag)
  exact pairs.forall_of_forall (fun _ _ _ _ _ => rfl) one two tag declares declaresToo

theorem mem_and_declares_of_find? {union : UnionType} {tag : String}
    (found : (unions.find? fun union => union.declares tag) = some union) :
    union ∈ unions ∧ union.declares tag = true := by
  have declares := List.find?_some found
  exact ⟨List.mem_of_find?_eq_some found, declares⟩

/-- The first union with a tag is the only one, and so it is found in every order. -/
theorem find?_declares_congr (apart : TagsApart unions) (same : SameUnions unions others) (tag : String) :
    (unions.find? fun union => union.declares tag) = others.find? fun union => union.declares tag := by
  cases here : unions.find? fun union => union.declares tag with
  | none =>
    refine (List.find?_eq_none.mpr fun union member => ?_).symm
    exact List.find?_eq_none.mp here union ((same union).mpr member)
  | some first =>
    obtain ⟨member, declares⟩ := mem_and_declares_of_find? here
    cases there : others.find? fun union => union.declares tag with
    | none => exact absurd declares (List.find?_eq_none.mp there first ((same first).mp member))
    | some second =>
      obtain ⟨memberToo, declaresToo⟩ := mem_and_declares_of_find? there
      rw [apart.eq_of_declares member ((same second).mpr memberToo) declares declaresToo]

theorem tagType_eq (unions : List UnionType) (tag : String) :
    tagType unions tag = ((unions.find? fun union => union.declares tag).map UnionType.type).getD (.plain tag) := by
  have search : (unions.find? fun union => union.tags.any fun declared => declared.name == tag) =
      unions.find? fun union => union.declares tag := rfl
  rw [tagType, search]
  cases unions.find? fun union => union.declares tag <;> rfl

/-- **A tag has one type, in whatever order the unions stand.** -/
theorem tagType_congr (apart : TagsApart unions) (same : SameUnions unions others) (tag : String) :
    tagType unions tag = tagType others tag := by
  rw [tagType_eq, tagType_eq, find?_declares_congr apart same]

/-! ## Inference -/

mutual

/-- **Inference asks the unions for nothing but the types of tags.** -/
theorem Expression.infer_congr (same : ∀ tag, tagType unions tag = tagType others tag) :
    ∀ expression : Expression, expression.infer unions = expression.infer others
  | .value _ | .string _ | .formatString _ | .range _ _ | .record _ => rfl
  | .call _ _ | .lambda _ | .lambdaCall _ _ | .reference _ _ => rfl
  | .list items => by rw [Expression.infer, Expression.infer, Expression.inferEach_congr same items]
  | .conditional _ ⟨_, whenTrue⟩ ⟨_, whenFalse⟩ => by
    rw [Expression.infer, Expression.infer, Expression.infer_congr same whenTrue, Expression.infer_congr same whenFalse]
  | .caseOf _ branches => by rw [Expression.infer, Expression.infer, Branch.inferEach_congr same branches]
  | .binary operator left right => by
    rw [Expression.infer.eq_def, Expression.infer.eq_def others]
    simp only [Expression.infer_congr same left, Expression.infer_congr same right]
  | .construct tag _ => by rw [Expression.infer, Expression.infer, same]

theorem Expression.inferEach_congr (same : ∀ tag, tagType unions tag = tagType others tag) :
    ∀ items : List Expression, Expression.inferEach unions items = Expression.inferEach others items
  | [] => rfl
  | item :: rest => by
    rw [Expression.inferEach, Expression.inferEach, Expression.infer_congr same item, Expression.inferEach_congr same rest]

theorem Branch.inferEach_congr (same : ∀ tag, tagType unions tag = tagType others tag) :
    ∀ branches : List Branch, Branch.inferEach unions branches = Branch.inferEach others branches
  | [] => rfl
  | ⟨_, ⟨_, result⟩⟩ :: rest => by
    rw [Branch.inferEach, Branch.inferEach, Expression.infer_congr same result, Branch.inferEach_congr same rest]

end

/-! ## Definitions -/

/-- What the check reads of a constant or a function: its name, what it is declared to be or to return, and its value. -/
structure DeclaredValue where
  name : String
  declared : Ty
  value : Expression

/-- What the check reads of a declaration, if it is a constant or a function. -/
def Block.declaredValue? : Block → Option DeclaredValue
  | .constant definition => some ⟨definition.name, definition.type, definition.body.result⟩
  | .function definition => some ⟨definition.name, definition.returnType, definition.body.result⟩
  | _ => none

/-- The constants and functions of a module, as the check reads them. -/
def Module.declaredValues (module : Module) : List DeclaredValue :=
  module.body.filterMap Block.declaredValue?

/-- What the check says of a definition. -/
def DeclaredValue.diagnostic? (unions : List UnionType) (definition : DeclaredValue) : Option Diagnostic :=
  (definitionProblem? unions definition.name definition.declared definition.value).map fun message =>
    ⟨message, .error, none⟩

theorem DeclaredValue.diagnostic?_congr (apart : TagsApart unions) (same : SameUnions unions others)
    (definition : DeclaredValue) : definition.diagnostic? unions = definition.diagnostic? others := by
  have inferred := Expression.infer_congr (tagType_congr apart same) definition.value
  rw [diagnostic?, diagnostic?, definitionProblem?, definitionProblem?, inferred]

theorem Block.problem?_eq (block : Block) : block.problem? unions = block.declaredValue?.bind fun definition =>
    definitionProblem? unions definition.name definition.declared definition.value := by
  cases block <;> rfl

end

/-- **A module has the diagnostics of its definitions, in their order.** -/
theorem Module.entries_check (module : Module) :
    module.check.entries = module.declaredValues.filterMap (DeclaredValue.diagnostic? module.unions) := by
  have problem : Block.problem? module.unions = fun block => block.declaredValue?.bind fun definition =>
      definitionProblem? module.unions definition.name definition.declared definition.value :=
    funext Block.problem?_eq
  change module.problems.map _ = _
  rw [problems, problem, declaredValues, List.filterMap_filterMap, List.map_filterMap]
  congr 1
  funext block
  cases block.declaredValue? <;> rfl

theorem Diagnostics.eq_of_entries {diagnostics others : Diagnostics} (same : diagnostics.entries = others.entries) :
    diagnostics = others := by
  cases diagnostics
  cases others
  exact congrArg _ same

/-! ## Modules with the same definitions -/

/-- The declaration is a union or a definition: the check does not look at any other. -/
def Block.isChecked : Block → Bool
  | .union _ | .function _ | .constant _ => true
  | _ => false

/-- Rows that differ only in what a function is not defined on. -/
theorem filterMap_congr_of_filter {α β : Type} {keep : α → Bool} {f : α → Option β} {items others : List α}
    (dropped : ∀ item, keep item = false → f item = none) (same : items.filter keep = others.filter keep) :
    items.filterMap f = others.filterMap f := by
  have kept : f = fun item => if keep item = true then f item else none := by
    funext item
    by_cases keeps : keep item = true
    · rw [if_pos keeps]
    · rw [if_neg keeps, dropped item (Bool.eq_false_iff.mpr keeps)]
  rw [kept, ← List.filterMap_filter, ← List.filterMap_filter, same]

section

variable {module other : Module}

theorem Module.unions_congr (same : other.body.filter Block.isChecked = module.body.filter Block.isChecked) :
    other.unions = module.unions := by
  refine filterMap_congr_of_filter (fun block unchecked => ?_) same
  cases block with
  | union _ | function _ | constant _ => cases unchecked
  | _ => rfl

theorem Module.declaredValues_congr (same : other.body.filter Block.isChecked = module.body.filter Block.isChecked) :
    other.declaredValues = module.declaredValues := by
  refine filterMap_congr_of_filter (fun block unchecked => ?_) same
  cases block with
  | union _ | function _ | constant _ => cases unchecked
  | _ => rfl

/-- **Declarations that are neither unions nor definitions do not count.** -/
theorem Module.check_eq_of_filter_eq (same : other.body.filter Block.isChecked = module.body.filter Block.isChecked) :
    other.check = module.check := by
  apply Diagnostics.eq_of_entries
  rw [entries_check, entries_check, unions_congr same, declaredValues_congr same]

/-- **With the same unions every definition has the same diagnostic.** -/
theorem Module.entries_check_of_sameUnions (apart : TagsApart module.unions) (same : SameUnions other.unions module.unions) :
    other.check.entries = other.declaredValues.filterMap (DeclaredValue.diagnostic? module.unions) := by
  have alike : DeclaredValue.diagnostic? other.unions = DeclaredValue.diagnostic? module.unions :=
    funext fun definition => (definition.diagnostic?_congr apart fun union => (same union).symm).symm
  rw [entries_check, alike]

theorem Module.sameUnions_of_perm (perm : other.body.Perm module.body) : SameUnions other.unions module.unions :=
  fun _ => (perm.filterMap _).mem_iff

theorem Module.declaredValues_perm (perm : other.body.Perm module.body) :
    other.declaredValues.Perm module.declaredValues :=
  perm.filterMap _

end

/-! ## Several modules -/

theorem Diagnostics.entries_push (diagnostics : Diagnostics) (message : String) :
    (diagnostics.push message).entries = diagnostics.entries ++ [⟨message, .error, none⟩] :=
  rfl

/-- The errors of declarations, one after the other. -/
theorem Checker.entries_foldl_checkBlock (unions : List UnionType) (blocks : List Block) (checker : Checker) :
    (blocks.foldl (Checker.checkBlock unions) checker).diagnostics.entries = checker.diagnostics.entries ++
      (blocks.filterMap (Block.problem? unions)).map fun message => ⟨message, .error, none⟩ := by
  induction blocks generalizing checker with
  | nil => rw [List.foldl_nil, List.filterMap_nil, List.map_nil, List.append_nil]
  | cons block rest step =>
    rw [List.foldl_cons, step, Checker.checkBlock]
    cases problem : block.problem? unions with
    | none => rw [List.filterMap_cons_none problem]
    | some message =>
      dsimp only
      rw [List.filterMap_cons_some problem, List.map_cons, Diagnostics.entries_push, List.append_assoc,
        List.singleton_append]

theorem Checker.entries_checkModule (checker : Checker) (module : Module) :
    (checker.checkModule module).diagnostics.entries = checker.diagnostics.entries ++ module.check.entries :=
  entries_foldl_checkBlock module.unions module.body checker

/-- A new checker gives what the check of the module alone does. -/
theorem Checker.diagnostics_checkModule_new (module : Module) : (({} : Checker).checkModule module).diagnostics = module.check :=
  Diagnostics.eq_of_entries (entries_checkModule {} module)

/-- **A checker holds what each module gives alone**, in the order in which it has seen them. -/
theorem Checker.entries_foldl_checkModule (modules : List Module) (checker : Checker) :
    (modules.foldl Checker.checkModule checker).diagnostics.entries =
      checker.diagnostics.entries ++ modules.flatMap fun module => module.check.entries := by
  induction modules generalizing checker with
  | nil => rw [List.foldl_nil, List.flatMap_nil, List.append_nil]
  | cons module rest step =>
    rw [List.foldl_cons, step, entries_checkModule, List.flatMap_cons, List.append_assoc]

/-! ## The check as a whole -/

/-- **Checking is per definition.** Where no tag is declared by two unions of a module:

* it has at most one diagnostic for each constant and function, in their order, and nothing else; and every module with the
  same unions, in any order, has the same diagnostic for a definition of that name, declared type and value;
* each diagnostic is an error;
* blocks in another order are the same definitions in that order, and so their diagnostics are in that order;
* imports, exports, aliases and comments may be put in and left out, and a union may stand before or behind its uses.

A checker goes through the blocks of a module and pushes its diagnostics. When it has seen several modules, it holds the
diagnostics of each of them, one after the other. -/
theorem check_per_definition {module : Module} (apart : TagsApart module.unions) :
    (∀ other : Module, SameUnions other.unions module.unions →
        other.check.entries = other.declaredValues.filterMap (DeclaredValue.diagnostic? module.unions)) ∧
      (∀ diagnostic ∈ module.check.entries, diagnostic.level = .error) ∧
      (∀ other : Module, other.body.Perm module.body → SameUnions other.unions module.unions ∧
        other.declaredValues.Perm module.declaredValues ∧ other.check.entries.Perm module.check.entries) ∧
      (∀ other : Module, other.body.filter Block.isChecked = module.body.filter Block.isChecked →
        other.check = module.check) ∧
      (∀ other : Module, other.declaredValues = module.declaredValues → SameUnions other.unions module.unions →
        other.check = module.check) ∧
      (∀ single : Module, (({} : Checker).checkModule single).diagnostics = single.check) ∧
      ∀ modules : List Module, (modules.foldl Checker.checkModule {}).diagnostics.entries =
        modules.flatMap fun module => module.check.entries := by
  refine ⟨fun other => Module.entries_check_of_sameUnions apart, fun diagnostic member => ?_, fun other perm => ?_,
    fun other => Module.check_eq_of_filter_eq, fun other values same => ?_,
    Checker.diagnostics_checkModule_new, fun modules => ?_⟩
  · rw [Module.entries_check] at member
    obtain ⟨definition, -, found⟩ := List.mem_filterMap.mp member
    obtain ⟨message, -, rfl⟩ := Option.map_eq_some_iff.mp found
    rfl
  · have same := Module.sameUnions_of_perm perm
    have values := Module.declaredValues_perm perm
    refine ⟨same, values, ?_⟩
    rw [Module.entries_check_of_sameUnions apart same, Module.entries_check module]
    exact values.filterMap _
  · apply Diagnostics.eq_of_entries
    rw [Module.entries_check_of_sameUnions apart same, Module.entries_check module, values]
  · rw [Checker.entries_foldl_checkModule]
    rfl

/-- Two unions behind a constant of the first, and a number that is a text. -/
def kennel : Module :=
  ⟨"Main",
    [.constant ⟨"pet", .plain "Animal", ⟨[], .construct "Dog" ⟨none, []⟩⟩⟩,
      .union ⟨.plain "Animal", [⟨"Dog", []⟩, ⟨"Cat", []⟩]⟩,
      .comment "ages",
      .constant ⟨"age", .number, ⟨[], .string "old"⟩⟩,
      .union ⟨.plain "Plant", [⟨"Oak", []⟩]⟩],
    []⟩

/-- The number is what is wrong with it, in whatever order the blocks stand. -/
theorem check_per_definition_kennel :
    TagsApart kennel.unions ∧
      kennel.check.entries = [⟨"Expected number but got string in `age`", .error, none⟩] ∧
      ∀ other : Module, other.body.Perm kennel.body →
        other.check.entries = [⟨"Expected number but got string in `age`", .error, none⟩] := by
  have apart : TagsApart kennel.unions := by
    refine List.pairwise_pair.mpr fun tag both => ?_
    simp only [UnionType.declares, List.any_cons, List.any_nil, Bool.or_false, Bool.or_eq_true, beq_iff_eq] at both
    rcases both with ⟨rfl | rfl, same⟩ <;> exact absurd same (by decide)
  have entries : kennel.check.entries = [⟨"Expected number but got string in `age`", .error, none⟩] := rfl
  refine ⟨apart, entries, fun other perm => ?_⟩
  have permuted := ((check_per_definition apart).2.2.1 other perm).2.2
  rw [entries] at permuted
  exact List.perm_singleton.mp permuted

end DerwLang
