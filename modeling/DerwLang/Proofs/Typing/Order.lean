/-
**The order of items.**

A list is typed when the first type that says anything agrees with the types of all items (`list_isTyped_iff`), and a case
when the list of its results is. So the order counts:

* `isTyped_iff_pairwise`: a list is typed in every order just in case its items agree with each other, and in its own order
  that is so if the first type that says anything is whole;
* `exists_hidden_conflict`: any first type that is not whole hides conflicts behind it;
* `bare_list_hides_conflict`: `[ [ x ], [ "a" ], [ 1 ] ]` is typed, and in another order it is not.
-/

import Mathlib.Data.List.Forall2
import Mathlib.Data.List.Pairwise
import Mathlib.Data.List.Perm.Basic
import DerwLang.Proofs.Typing.Shared

namespace DerwLang

/-! ## Rows of types in every order -/

namespace Ty

/-- The first type that says anything agrees with all types of the row. -/
def Led (types : List Ty) : Prop :=
  ∀ lead ∈ lead? types, ∀ type ∈ types, lead.agree type = true

/-- The types agree with each other. -/
def AgreeInPairs (types : List Ty) : Prop :=
  types.Pairwise fun first second => first.agree second = true

theorem agreeInPairs_iff {types : List Ty} :
    AgreeInPairs types ↔ ∀ first ∈ types, ∀ second ∈ types, first.agree second = true := by
  have symmetric : Std.Symm fun first second : Ty => first.agree second = true :=
    ⟨fun first second agrees => agree_comm first second ▸ agrees⟩
  exact ⟨fun pairs first one second two => pairs.forall_of_forall (fun type _ => agree_refl type) one two,
    List.pairwise_of_forall_mem_list⟩

theorem AgreeInPairs.led {types : List Ty} (pairs : AgreeInPairs types) : Led types :=
  fun lead isLead => agreeInPairs_iff.mp pairs lead (mem_of_lead? isLead)

/-- **Behind a whole type no two types are apart.** -/
theorem led_iff_agreeInPairs {types : List Ty} (whole : ∀ lead ∈ lead? types, lead.isWhole = true) :
    Led types ↔ AgreeInPairs types := by
  refine ⟨fun led => agreeInPairs_iff.mpr fun first one second two => ?_, AgreeInPairs.led⟩
  cases isLead : lead? types with
  | none => exact agree_of_isWildcard_left (isWildcard_of_lead?_eq_none isLead first one) second
  | some lead =>
    have before : first.agree lead = true := agree_comm first lead ▸ led lead isLead first one
    exact agree_of_isWhole (whole lead isLead) before (led lead isLead second two)

/-- **A row is led in every order just in case its types agree with each other**: each type comes first in some order. -/
theorem led_perm_iff_agreeInPairs {types : List Ty} :
    (∀ order : List Ty, order.Perm types → Led order) ↔ AgreeInPairs types := by
  constructor
  · refine fun led => agreeInPairs_iff.mpr fun first one second two => ?_
    by_cases wild : first.isWildcard = true
    · exact agree_of_isWildcard_left wild second
    · obtain ⟨before, after, rfl⟩ := List.append_of_mem one
      have leads : first ∈ lead? (first :: (before ++ after)) := lead?_cons_of_telling (Bool.eq_false_iff.mpr wild) _
      exact led _ List.perm_middle.symm first leads second (List.perm_middle.mem_iff.mp two)
  · intro pairs order perm
    have inOrder : AgreeInPairs order :=
      agreeInPairs_iff.mpr fun first one second two =>
        agreeInPairs_iff.mp pairs first (perm.subset one) second (perm.subset two)
    exact inOrder.led

end Ty

/-! ## Lists and cases -/

open Ty

/-- The expression has a type. -/
def Expression.IsTyped (unions : List UnionType) (expression : Expression) : Prop :=
  ∃ type, expression.infer unions = .ok type

/-- Each of the items has the type that stands in its place. -/
def HaveTypes (unions : List UnionType) (items : List Expression) (types : List Ty) : Prop :=
  List.Forall₂ (fun item type => item.infer unions = .ok type) items types

section

variable {unions : List UnionType} {items : List Expression} {types : List Ty}

theorem HaveTypes.map_eq (inferred : HaveTypes unions items types) :
    items.map (Expression.infer unions) = types.map .ok := by
  induction inferred with
  | nil => rfl
  | cons own _ step => rw [List.map_cons, List.map_cons, own, step]

/-- Items in another order have their types in that order. -/
theorem HaveTypes.perm (inferred : HaveTypes unions items types) {order : List Expression} (perm : order.Perm items) :
    ∃ types', HaveTypes unions order types' ∧ types'.Perm types :=
  List.perm_comp_forall₂ perm inferred

theorem HaveTypes.perm_types (inferred : HaveTypes unions items types) {types' : List Ty} (perm : types'.Perm types) :
    ∃ order : List Expression, order.Perm items ∧ HaveTypes unions order types' := by
  have comp : Relation.Comp (List.Forall₂ fun item type => item.infer unions = .ok type) List.Perm items types' :=
    ⟨types, inferred, perm.symm⟩
  rw [List.forall₂_comp_perm_eq_perm_comp_forall₂] at comp
  obtain ⟨order, itemsPerm, inOrder⟩ := comp
  exact ⟨order, itemsPerm.symm, inOrder⟩

/-- **A list is typed just in case the first type that says anything agrees with the types of all items.** -/
theorem list_isTyped_iff (inferred : HaveTypes unions items types) :
    (Expression.list items).IsTyped unions ↔ Led types := by
  rw [Led, ← shared_agree_iff]
  constructor
  · rintro ⟨type, typed⟩
    obtain ⟨element, agreeing, -⟩ := (Expression.infer_list_eq_ok_iff items type).mp typed
    rw [inferred.map_eq, Inferred.agreeing_eq_ok_iff] at agreeing
    exact agreeing.2
  · intro agrees
    refine ⟨.list (shared types), (Expression.infer_list_eq_ok_iff items _).mpr ⟨shared types, ?_, rfl⟩⟩
    rw [inferred.map_eq, Inferred.agreeing_eq_ok_iff]
    exact ⟨rfl, agrees⟩

/-- **A case is typed just in case the list of its results is.** -/
theorem caseOf_isTyped_iff (predicate : Expression) (branches : List Branch) :
    (Expression.caseOf predicate branches).IsTyped unions ↔
      (Expression.list (branches.map fun branch => branch.body.result)).IsTyped unions := by
  rw [Expression.IsTyped, Expression.IsTyped, Expression.infer_caseOf]
  constructor
  · rintro ⟨element, typed⟩
    exact ⟨.list element, (Expression.infer_list_eq_ok_iff _ _).mpr ⟨element, typed, rfl⟩⟩
  · rintro ⟨type, typed⟩
    obtain ⟨element, agreeing, -⟩ := (Expression.infer_list_eq_ok_iff _ type).mp typed
    exact ⟨element, agreeing⟩

theorem list_isTyped_perm_iff (inferred : HaveTypes unions items types) :
    (∀ order : List Expression, order.Perm items → (Expression.list order).IsTyped unions) ↔ AgreeInPairs types := by
  rw [← led_perm_iff_agreeInPairs]
  constructor
  · intro typed types' perm
    obtain ⟨order, itemsPerm, inOrder⟩ := inferred.perm_types perm
    exact (list_isTyped_iff inOrder).mp (typed order itemsPerm)
  · intro led order perm
    obtain ⟨types', inOrder, typesPerm⟩ := inferred.perm perm
    exact (list_isTyped_iff inOrder).mpr (led types' typesPerm)

theorem agreeInPairs_perm {types' : List Ty} (perm : types'.Perm types) : AgreeInPairs types' ↔ AgreeInPairs types := by
  rw [agreeInPairs_iff, agreeInPairs_iff]
  simp only [perm.mem_iff]

/-- **A list is typed in every order just in case its items agree with each other.** In its own order it is typed just in case
the first type that says anything agrees with all others, which comes to the same if that type is whole. So if all types that
say anything are whole, the order does not count. All this holds of the branches of a case as well. -/
theorem isTyped_iff_pairwise (inferred : HaveTypes unions items types) :
    ((∀ order : List Expression, order.Perm items → (Expression.list order).IsTyped unions) ↔ AgreeInPairs types) ∧
      ((Expression.list items).IsTyped unions ↔ Led types) ∧
      ((∀ lead ∈ lead? types, lead.isWhole = true) →
        ((Expression.list items).IsTyped unions ↔ AgreeInPairs types)) ∧
      ((∀ type ∈ types, type.isWildcard = true ∨ type.isWhole = true) →
        ∀ order : List Expression, order.Perm items →
          ((Expression.list order).IsTyped unions ↔ AgreeInPairs types)) ∧
      ∀ predicate branches, (Expression.caseOf predicate branches).IsTyped unions ↔
        (Expression.list (branches.map fun branch => branch.body.result)).IsTyped unions := by
  refine ⟨list_isTyped_perm_iff inferred, list_isTyped_iff inferred,
    fun whole => (list_isTyped_iff inferred).trans (led_iff_agreeInPairs whole), fun settled order perm => ?_,
    caseOf_isTyped_iff⟩
  obtain ⟨types', inOrder, typesPerm⟩ := inferred.perm perm
  have whole : ∀ lead ∈ lead? types', lead.isWhole = true := fun lead isLead =>
    (settled lead (typesPerm.subset (mem_of_lead? isLead))).resolve_left
      (Bool.eq_false_iff.mp (isWildcard_of_lead? isLead))
  rw [list_isTyped_iff inOrder, led_iff_agreeInPairs whole, agreeInPairs_perm typesPerm]

end

/-- Behind an item of unknown type two lists that are apart are found so in every order. -/
theorem isTyped_iff_pairwise_mixed :
    HaveTypes [] [.value "x", .list [.string "a"], .list [.value "1"]] [.any, .list .string, .list .number] ∧
      (∀ type ∈ [Ty.any, .list .string, .list .number], type.isWildcard = true ∨ type.isWhole = true) ∧
      ∀ order : List Expression, order.Perm [.value "x", .list [.string "a"], .list [.value "1"]] →
        ¬ (Expression.list order).IsTyped [] := by
  have inferred : HaveTypes [] [.value "x", .list [.string "a"], .list [.value "1"]]
      [.any, .list .string, .list .number] := .cons rfl (.cons rfl (.cons rfl .nil))
  have settled : ∀ type ∈ [Ty.any, .list .string, .list .number], type.isWildcard = true ∨ type.isWhole = true := by
    simp only [List.forall_mem_cons]
    exact ⟨.inl rfl, .inr rfl, .inr rfl, by simp⟩
  have apart : ¬ AgreeInPairs [.any, .list .string, .list .number] := fun pairs => by
    cases agreeInPairs_iff.mp pairs (.list .string) (by simp) (.list .number) (by simp)
  exact ⟨inferred, settled, fun order perm typed =>
    apart (((isTyped_iff_pairwise inferred).2.2.2.1 settled order perm).mp typed)⟩

/-! ## Conflicts that are not seen -/

/-- **A first type that is not whole hides a conflict**: the list is typed, though two items behind the first do not agree. -/
theorem exists_hidden_conflict {lead : Ty} (telling : lead.isWildcard = false) (notWhole : lead.isWhole = false) :
    ∃ (unions : List UnionType) (items : List Expression) (types : List Ty), HaveTypes unions items (lead :: types) ∧
      (Expression.list items).IsTyped unions ∧ ¬ AgreeInPairs (lead :: types) := by
  obtain ⟨first, second, before, after, apart⟩ := exists_apart notWhole
  have inferred : HaveTypes [⟨lead, [⟨"A", []⟩]⟩, ⟨first, [⟨"B", []⟩]⟩, ⟨second, [⟨"C", []⟩]⟩]
      [.construct "A" ⟨none, []⟩, .construct "B" ⟨none, []⟩, .construct "C" ⟨none, []⟩] [lead, first, second] :=
    .cons rfl (.cons rfl (.cons rfl .nil))
  refine ⟨_, _, _, inferred, (list_isTyped_iff inferred).mpr ?_, fun pairs => ?_⟩
  · intro other isLead
    rw [lead?_cons_of_telling telling, Option.mem_some] at isLead
    subst isLead
    simp only [List.forall_mem_cons]
    exact ⟨agree_refl lead, agree_comm first lead ▸ before, after, by simp⟩
  · have agrees := agreeInPairs_iff.mp pairs first (by simp) second (by simp)
    rw [apart] at agrees
    cases agrees

/-- **A list of what is not known hides the conflict behind it.** `[ [ x ], [ "a" ], [ 1 ] ]` is typed, though its second and its
third item do not agree, and `[ [ "a" ], [ x ], [ 1 ] ]` is not. -/
theorem bare_list_hides_conflict :
    HaveTypes [] [.list [.value "x"], .list [.string "a"], .list [.value "1"]]
        [.list .any, .list .string, .list .number] ∧
      (Expression.list [.list [.value "x"], .list [.string "a"], .list [.value "1"]]).IsTyped [] ∧
      ¬ AgreeInPairs [.list .any, .list .string, .list .number] ∧
      ¬ (Expression.list [.list [.string "a"], .list [.value "x"], .list [.value "1"]]).IsTyped [] := by
  refine ⟨.cons rfl (.cons rfl (.cons rfl .nil)), ⟨.list (.list .any), rfl⟩, fun pairs => ?_, ?_⟩
  · cases agreeInPairs_iff.mp pairs (.list .string) (by simp) (.list .number) (by simp)
  · rintro ⟨type, typed⟩
    cases typed

end DerwLang
