/-
**What types and errors stand for.**

A type that items share is agreed to by each of them, and an error is the fault of one place: two items of one list, case or
conditional that do not agree, an operation on what is no number, or an element in front of what is no list of such elements.
The error names the types that are found there.

* `error_step`: an error comes from a part whose type counts, or is witnessed by the expression itself;
* `inference_genuine`: so it is witnessed somewhere inside.
-/

import Mathlib.Logic.Basic
import DerwLang.Proofs.Typing.Shared

namespace DerwLang

open Ty

/-! ## Where errors come from -/

namespace Expression

/-- The expressions that must have one type: the items of a list, and the results of a case or a conditional. -/
def alternatives : Expression → List Expression
  | .list items => items
  | .conditional _ whenTrue whenFalse => [whenTrue.result, whenFalse.result]
  | .caseOf _ branches => branches.map fun branch => branch.body.result
  | _ => []

/-- The parts of an expression whose types count for its own. -/
def typedParts : Expression → List Expression
  | .binary operator left right => if operator.isArithmetic || operator == .prepend then [left, right] else []
  | expression => expression.alternatives

/-- One expression stands in another, at a place whose type counts. -/
inductive Counts (inner : Expression) : Expression → Prop
  | self : Counts inner inner
  | inside {part outer : Expression} (isPart : part ∈ outer.typedParts) (counts : Counts inner part) :
      Counts inner outer

/-- **An expression is to blame for an error.** -/
inductive Blamed (unions : List UnionType) : Expression → TypeError → Prop
  /-- two alternatives, in their order, have types that do not agree -/
  | conflicting {node earlier later : Expression} {first second : Ty}
      (order : List.Sublist [earlier, later] node.alternatives) (one : earlier.infer unions = .ok first)
      (two : later.infer unions = .ok second) (apart : first.agree second = false) :
      Blamed unions node (.conflicting first second)
  /-- an operand of arithmetic has a type other than numbers -/
  | mismatching {operator : BinaryOperator} {left right : Expression} {first second : Ty}
      (arithmetic : operator.isArithmetic = true) (one : left.infer unions = .ok first)
      (two : right.infer unions = .ok second)
      (noNumber : first ≠ .any ∧ first ≠ .number ∨ second ≠ .any ∧ second ≠ .number) :
      Blamed unions (.binary operator left right) (.mismatching first second)
  /-- an element stands in front of what is known, and is no list of elements that agree with it -/
  | invalidPrepend {left right : Expression} {head tail : Ty} (one : left.infer unions = .ok head)
      (two : right.infer unions = .ok tail) (telling : tail.isWildcard = false)
      (noList : ∀ element, tail = .list element → head.agree element = false) :
      Blamed unions (.binary .prepend left right)
        (.invalidPrepend (operandLabel left head) (elementLabel right (tail.listElement?.getD tail)))

end Expression

/-! ## One step -/

namespace Inferred

theorem arithmetic_eq_error {left right : Inferred} {error : TypeError} (failed : arithmetic left right = .error error) :
    left = .error error ∨ right = .error error ∨ ∃ first second, left = .ok first ∧ right = .ok second ∧
      (first ≠ .any ∧ first ≠ .number ∨ second ≠ .any ∧ second ≠ .number) ∧ error = .mismatching first second := by
  cases left with
  | error own => exact .inl failed
  | ok first =>
    cases right with
    | error own => exact .inr (.inl failed)
    | ok second =>
      refine .inr (.inr ⟨first, second, rfl, rfl, ?_⟩)
      simp only [arithmetic, bind, Except.bind] at failed
      split at failed
      · cases failed
      · next noNumber =>
        rw [Bool.and_eq_true, Bool.or_eq_true, Bool.or_eq_true, isAny_iff, isAny_iff, isNumber_iff, isNumber_iff,
          not_and_or, not_or, not_or] at noNumber
        exact ⟨noNumber, (Except.error.inj failed).symm⟩

theorem prependType_eq_error {left right : Expression} {head tail : Inferred} {error : TypeError}
    (failed : prependType left right head tail = .error error) :
    head = .error error ∨ tail = .error error ∨ ∃ first rest, head = .ok first ∧ tail = .ok rest ∧
      rest.isWildcard = false ∧ (∀ element, rest = .list element → first.agree element = false) ∧
      error = .invalidPrepend (operandLabel left first) (elementLabel right (rest.listElement?.getD rest)) := by
  cases head with
  | error own => exact .inl failed
  | ok first =>
    cases tail with
    | error own => exact .inr (.inl failed)
    | ok rest =>
      refine .inr (.inr ⟨first, rest, rfl, rfl, ?_⟩)
      simp only [prependType, bind, Except.bind] at failed
      split at failed
      · cases failed
      · next known =>
        refine ⟨Bool.eq_false_iff.mpr known, ?_⟩
        cases isList : rest.listElement? with
        | none =>
          rw [isList] at failed
          refine ⟨fun element same => ?_, (Except.error.inj failed).symm⟩
          rw [listElement?_eq_some.mpr same] at isList
          cases isList
        | some element =>
          by_cases agrees : first.agree element = true
          · simp only [isList, merge?, if_pos agrees] at failed
            cases failed
          · simp only [isList, merge?, if_neg agrees] at failed
            refine ⟨fun other same => ?_, (Except.error.inj failed).symm⟩
            rw [listElement?_eq_some.mpr same] at isList
            exact Option.some.inj isList ▸ Bool.eq_false_iff.mpr agrees

end Inferred

namespace Expression

variable {unions : List UnionType}

/-- What goes wrong among alternatives. -/
theorem blamed_of_agreeing (node : Expression) {error : TypeError}
    (failed : Inferred.agreeing (node.alternatives.map (infer unions)) = .error error) :
    (∃ part ∈ node.alternatives, part.infer unions = .error error) ∨ Blamed unions node error := by
  rcases Inferred.clash_of_agreeing_eq_error failed with member | ⟨first, second, both, apart, rfl⟩
  · obtain ⟨part, isPart, own⟩ := List.mem_map.mp member
    exact .inl ⟨part, isPart, own⟩
  · obtain ⟨pair, sublist, same⟩ := List.sublist_map_iff.mp both
    obtain ⟨earlier, rest, rfl, one, others⟩ := List.map_eq_cons_iff.mp same.symm
    obtain ⟨later, behind, rfl, two, nothing⟩ := List.map_eq_cons_iff.mp others
    obtain rfl := List.map_eq_nil_iff.mp nothing
    exact .inr (.conflicting sublist one two apart)

theorem infer_binary (operator : BinaryOperator) (left right : Expression) :
    (Expression.binary operator left right).infer unions =
      if operator.isArithmetic then Inferred.arithmetic (left.infer unions) (right.infer unions)
      else if operator = .prepend then prependType left right (left.infer unions) (right.infer unions)
      else if operator.isPipe then .ok .any else .ok .boolean := by
  cases operator <;> rfl

/-- **One step**: an error comes from a part whose type counts, or the expression itself is to blame. -/
theorem error_step {expression : Expression} {error : TypeError} (failed : expression.infer unions = .error error) :
    (∃ part ∈ expression.typedParts, part.infer unions = .error error) ∨ Blamed unions expression error := by
  cases expression with
  | value text => cases failed
  | string text => cases failed
  | formatString text => cases failed
  | range first last => cases failed
  | record literal => cases failed
  | call name arguments => cases failed
  | lambda lambda => cases failed
  | lambdaCall lambda arguments => cases failed
  | construct tag literal => cases failed
  | reference path value => cases failed
  | list items =>
    rw [infer_list] at failed
    cases shared : Inferred.agreeing (items.map (infer unions)) with
    | ok element =>
      rw [shared] at failed
      cases failed
    | error own =>
      rw [shared] at failed
      obtain rfl := Except.error.inj failed
      exact blamed_of_agreeing (.list items) shared
  | conditional predicate whenTrue whenFalse =>
    rw [infer_conditional] at failed
    exact blamed_of_agreeing (.conditional predicate whenTrue whenFalse) failed
  | caseOf predicate branches =>
    rw [infer_caseOf] at failed
    exact blamed_of_agreeing (.caseOf predicate branches) failed
  | binary operator left right =>
    rw [infer_binary] at failed
    by_cases arithmetic : operator.isArithmetic = true
    · rw [if_pos arithmetic] at failed
      rw [typedParts, arithmetic, Bool.true_or, if_pos rfl]
      rcases Inferred.arithmetic_eq_error failed with own | own | ⟨first, second, one, two, noNumber, rfl⟩
      · exact .inl ⟨left, by simp, own⟩
      · exact .inl ⟨right, by simp, own⟩
      · exact .inr (.mismatching arithmetic one two noNumber)
    · rw [if_neg arithmetic] at failed
      by_cases prepend : operator = .prepend
      · subst prepend
        rw [if_pos rfl] at failed
        rw [typedParts, beq_self_eq_true, Bool.or_true, if_pos rfl]
        rcases Inferred.prependType_eq_error failed with own | own | ⟨head, tail, one, two, telling, noList, rfl⟩
        · exact .inl ⟨left, by simp, own⟩
        · exact .inl ⟨right, by simp, own⟩
        · exact .inr (.invalidPrepend one two telling noList)
      · rw [if_neg prepend] at failed
        split at failed <;> cases failed

/-! ## Any number of steps -/

theorem sizeOf_lt_of_mem_typedParts {part outer : Expression} (isPart : part ∈ outer.typedParts) :
    sizeOf part < sizeOf outer := by
  cases outer with
  | list items =>
    have smaller := List.sizeOf_lt_of_mem (show part ∈ items from isPart)
    rw [list.sizeOf_spec]
    omega
  | conditional predicate whenTrue whenFalse =>
    obtain ⟨_, yes⟩ := whenTrue
    obtain ⟨_, no⟩ := whenFalse
    have either : part ∈ [yes, no] := isPart
    rw [List.mem_cons, List.mem_singleton] at either
    rw [conditional.sizeOf_spec, Body.mk.sizeOf_spec, Body.mk.sizeOf_spec]
    rcases either with rfl | rfl <;> omega
  | caseOf predicate branches =>
    obtain ⟨⟨_, ⟨_, result⟩⟩, member, rfl⟩ := List.mem_map.mp isPart
    have smaller := List.sizeOf_lt_of_mem member
    rw [Branch.mk.sizeOf_spec, Body.mk.sizeOf_spec] at smaller
    rw [caseOf.sizeOf_spec]
    simp only
    omega
  | binary operator left right =>
    rw [typedParts] at isPart
    split at isPart
    · rw [List.mem_cons, List.mem_singleton] at isPart
      rw [binary.sizeOf_spec]
      rcases isPart with rfl | rfl <;> omega
    · cases isPart
  | _ => cases isPart

/-- **Every error is witnessed inside the expression.** -/
theorem exists_blamed {expression : Expression} {error : TypeError} (failed : expression.infer unions = .error error) :
    ∃ node, node.Counts expression ∧ Blamed unions node error := by
  rcases error_step failed with ⟨part, isPart, own⟩ | blamed
  · have smaller := sizeOf_lt_of_mem_typedParts isPart
    obtain ⟨node, counts, blamed⟩ := exists_blamed own
    exact ⟨node, .inside isPart counts, blamed⟩
  · exact ⟨expression, .self, blamed⟩
termination_by sizeOf expression

/-- Each of the items has a type that agrees with the one they share. -/
theorem agree_of_agreeing {items : List Expression} {type : Ty}
    (shared : Inferred.agreeing (items.map (infer unions)) = .ok type) :
    ∀ item ∈ items, ∃ own, item.infer unions = .ok own ∧ own.agree type = true := by
  intro item member
  obtain ⟨types, same⟩ := Inferred.exists_types_of_agreeing shared
  rw [same, Inferred.agreeing_eq_ok_iff] at shared
  obtain ⟨rfl, agrees⟩ := shared
  have among : item.infer unions ∈ types.map .ok := same ▸ List.mem_map_of_mem member
  obtain ⟨own, isOwn, typed⟩ := List.mem_map.mp among
  exact ⟨own, typed.symm, agree_comm own _ ▸ agrees own isOwn⟩

/-- **Types and errors are genuine.** The type of a list, a case or a conditional is agreed to by each of its items or
branches, and each of them has a type; every error is witnessed by an expression inside at a place that counts; and agreement
is reflexive and symmetric. -/
theorem inference_genuine (unions : List UnionType) :
    (∀ items type, (Expression.list items).infer unions = .ok type → ∃ element, type = .list element ∧
        ∀ item ∈ items, ∃ own, item.infer unions = .ok own ∧ own.agree element = true) ∧
      (∀ predicate branches type, (Expression.caseOf predicate branches).infer unions = .ok type →
        ∀ branch ∈ branches, ∃ own, branch.body.result.infer unions = .ok own ∧ own.agree type = true) ∧
      (∀ predicate whenTrue whenFalse type, (Expression.conditional predicate whenTrue whenFalse).infer unions = .ok type →
        ∀ body ∈ [whenTrue, whenFalse], ∃ own, body.result.infer unions = .ok own ∧ own.agree type = true) ∧
      (∀ expression error, expression.infer unions = .error error →
        ∃ node : Expression, node.Counts expression ∧ Blamed unions node error) ∧
      (∀ type : Ty, type.agree type = true) ∧
      ∀ first second : Ty, first.agree second = second.agree first := by
  refine ⟨fun items type typed => ?_, fun predicate branches type typed branch member => ?_,
    fun predicate whenTrue whenFalse type typed body either => ?_, fun _ _ => exists_blamed, agree_refl, agree_comm⟩
  · obtain ⟨element, shared, rfl⟩ := (infer_list_eq_ok_iff items type).mp typed
    exact ⟨element, rfl, agree_of_agreeing shared⟩
  · rw [infer_caseOf] at typed
    exact agree_of_agreeing typed _ (List.mem_map_of_mem member)
  · rw [infer_conditional] at typed
    refine agree_of_agreeing typed body.result ?_
    rw [List.mem_cons, List.mem_singleton] at either ⊢
    exact either.imp (congrArg Body.result) (congrArg Body.result)

/-- In `if c then [ 2, x ] else [ 1 + "a" ]` the sum is to blame, and `[ 2, x ]` is a list of numbers to which each item
agrees. -/
theorem inference_genuine_nested :
    (Expression.list [.value "2", .value "x"]).infer [] = .ok (.list .number) ∧
      (∀ item ∈ [Expression.value "2", .value "x"], ∃ own, item.infer [] = .ok own ∧ own.agree .number = true) ∧
      (Expression.conditional (.value "c") ⟨[], .list [.value "2", .value "x"]⟩
        ⟨[], .list [.binary .add (.value "1") (.string "a")]⟩).infer [] = .error (.mismatching .number .string) ∧
      ∃ node : Expression, node.Counts (.conditional (.value "c") ⟨[], .list [.value "2", .value "x"]⟩
        ⟨[], .list [.binary .add (.value "1") (.string "a")]⟩) ∧ Blamed [] node (.mismatching .number .string) := by
  obtain ⟨lists, -, -, errors, -, -⟩ := inference_genuine []
  obtain ⟨element, same, agrees⟩ := lists [.value "2", .value "x"] (.list .number) rfl
  obtain rfl : Ty.number = element := Option.some.inj (listElement?_eq_some.mpr same)
  exact ⟨rfl, agrees, rfl, errors _ _ rfl⟩

end Expression

end DerwLang
