/-
**The type that items share.**

The items of a list, like the branches of a case or a conditional, are gone through in order, and the type so far is replaced
only while it is a wildcard. So what they are taken for is the first of their types that says anything (`Ty.shared`), and each
item is compared with it and with no other.

* `agreeing_eq_ok_iff`: there is a type just in case that one agrees with the types of all items;
* `clash_of_agreeing_eq_error`: if there is none, an item has none or two items have types that do not agree.
-/

import DerwLang.Proofs.Typing.Agreement

namespace DerwLang

/-! ## The first type that says anything -/

namespace Ty

/-- The first type of which something is known. -/
def lead? (types : List Ty) : Option Ty :=
  types.find? fun type => !type.isWildcard

/-- What a row of types is taken for: its first type of which something is known, else its last one, and `any` if there is
none. -/
def shared (types : List Ty) : Ty :=
  (lead? types).getD (types.getLast?.getD .any)

theorem lead?_cons_of_telling {first : Ty} (telling : first.isWildcard = false) (rest : List Ty) :
    lead? (first :: rest) = some first := by
  rw [lead?, List.find?_cons_of_pos]
  rw [telling, Bool.not_false]

theorem lead?_cons_of_isWildcard {first : Ty} (wild : first.isWildcard = true) (rest : List Ty) :
    lead? (first :: rest) = lead? rest := by
  rw [lead?, List.find?_cons_of_neg, lead?]
  rw [wild, Bool.not_true]
  decide

theorem mem_of_lead? {types : List Ty} {lead : Ty} (isLead : lead ∈ lead? types) : lead ∈ types :=
  List.mem_of_find?_eq_some isLead

theorem isWildcard_of_lead? {types : List Ty} {lead : Ty} (isLead : lead ∈ lead? types) : lead.isWildcard = false := by
  have telling := List.find?_some isLead
  rwa [Bool.not_eq_true'] at telling

theorem isWildcard_of_lead?_eq_none {types : List Ty} (noLead : lead? types = none) :
    ∀ type ∈ types, type.isWildcard = true := by
  intro type member
  have silent := List.find?_eq_none.mp noLead type member
  rwa [Bool.not_eq_true, Bool.not_eq_false'] at silent

theorem shared_of_lead? {types : List Ty} {lead : Ty} (isLead : lead ∈ lead? types) : shared types = lead := by
  rw [shared, isLead, Option.getD_some]

theorem shared_cons_of_telling {first : Ty} (telling : first.isWildcard = false) (rest : List Ty) :
    shared (first :: rest) = first :=
  shared_of_lead? (lead?_cons_of_telling telling rest)

theorem shared_cons_of_isWildcard {first : Ty} (wild : first.isWildcard = true) (next : Ty) (rest : List Ty) :
    shared (first :: next :: rest) = shared (next :: rest) := by
  rw [shared, lead?_cons_of_isWildcard wild, List.getLast?_cons_cons, shared]

theorem shared_singleton (type : Ty) : shared [type] = type := by
  by_cases wild : type.isWildcard = true
  · rw [shared, lead?_cons_of_isWildcard wild]
    rfl
  · exact shared_cons_of_telling (Bool.eq_false_iff.mpr wild) []

theorem shared_mem_or_eq_any (types : List Ty) : shared types ∈ types ∨ shared types = .any := by
  cases isLead : lead? types with
  | some lead => exact .inl (shared_of_lead? isLead ▸ mem_of_lead? isLead)
  | none =>
    rw [shared, isLead, Option.getD_none]
    cases isLast : types.getLast? with
    | some last => exact .inl (List.mem_of_getLast? isLast)
    | none => exact .inr rfl

/-- The row is taken for a wildcard only if there is nothing else in it. -/
theorem isWildcard_of_shared {types : List Ty} (wild : (shared types).isWildcard = true) :
    ∀ type ∈ types, type.isWildcard = true := by
  cases isLead : lead? types with
  | some lead =>
    rw [shared_of_lead? isLead, isWildcard_of_lead? isLead] at wild
    cases wild
  | none => exact isWildcard_of_lead?_eq_none isLead

/-- What the row is taken for agrees with all of it just in case its first type that says anything does. -/
theorem shared_agree_iff (types : List Ty) : (∀ type ∈ types, (shared types).agree type = true) ↔
    ∀ lead ∈ lead? types, ∀ type ∈ types, lead.agree type = true := by
  constructor
  · intro agrees lead isLead
    rwa [shared_of_lead? isLead] at agrees
  · intro agrees type member
    cases isLead : lead? types with
    | some lead =>
      rw [shared_of_lead? isLead]
      exact agrees lead isLead type member
    | none => exact agree_of_isWildcard_right _ (isWildcard_of_lead?_eq_none isLead type member)

end Ty

/-! ## Going through the items -/

namespace Inferred

open Ty

theorem agreeingWith_cons_of_agree {current next : Ty} (agrees : current.agree next = true) (rest : List Inferred) :
    agreeingWith (some current) (.ok next :: rest) =
      agreeingWith (some (if current.isWildcard then next else current)) rest := by
  simp only [agreeingWith, bind, Except.bind, merge?, agrees, if_true]

theorem agreeingWith_cons_of_not_agree {current next : Ty} (apart : current.agree next = false) (rest : List Inferred) :
    agreeingWith (some current) (.ok next :: rest) = .error (.conflicting current next) := by
  simp only [agreeingWith, bind, Except.bind, merge?, apart, Bool.false_eq_true, if_false]

theorem agreeingWith_cons_error (current : Ty) (error : TypeError) (rest : List Inferred) :
    agreeingWith (some current) (.error error :: rest) = .error error :=
  rfl

/-- **One item more**: what the row so far is taken for is all that is kept of it. -/
theorem agreeingWith_eq_ok_iff (current : Ty) (types : List Ty) (type : Ty) :
    agreeingWith (some current) (types.map .ok) = .ok type ↔
      type = shared (current :: types) ∧ ∀ other ∈ current :: types, (shared (current :: types)).agree other = true := by
  induction types generalizing current with
  | nil =>
    rw [List.map_nil, agreeingWith, Option.getD_some, shared_singleton, Except.ok.injEq, List.forall_mem_singleton]
    exact ⟨fun same => ⟨same.symm, agree_refl current⟩, fun both => both.1.symm⟩
  | cons next rest step =>
    rw [List.map_cons]
    by_cases wild : current.isWildcard = true
    · rw [agreeingWith_cons_of_agree (agree_of_isWildcard_left wild next), if_pos wild, step next,
        shared_cons_of_isWildcard wild, List.forall_mem_cons (a := current)]
      simp only [agree_of_isWildcard_right _ wild, true_and]
    · rw [Bool.not_eq_true] at wild
      rw [shared_cons_of_telling wild, List.forall_mem_cons, List.forall_mem_cons]
      by_cases agrees : current.agree next = true
      · rw [agreeingWith_cons_of_agree agrees, wild, if_neg Bool.false_ne_true, step current,
          shared_cons_of_telling wild, List.forall_mem_cons, agrees]
        simp only [true_and]
      · rw [agreeingWith_cons_of_not_agree (Bool.eq_false_iff.mpr agrees)]
        simp only [agrees, reduceCtorEq, false_and, and_false, Bool.false_eq_true]

/-- **Items that have types share one just in case the first type that says anything agrees with all.** -/
theorem agreeing_eq_ok_iff (types : List Ty) (type : Ty) : agreeing (types.map .ok) = .ok type ↔
    type = shared types ∧ ∀ other ∈ types, (shared types).agree other = true := by
  cases types with
  | nil =>
    have silent : shared [] = .any := rfl
    rw [List.map_nil, agreeing, agreeingWith, Option.getD_none, silent, Except.ok.injEq]
    exact ⟨fun same => ⟨same.symm, by simp⟩, fun both => both.1.symm⟩
  | cons first rest => exact agreeingWith_eq_ok_iff first rest type

/-- Items share a type only if each of them has one. -/
theorem exists_types_of_agreeingWith {current : Ty} {results : List Inferred} {type : Ty}
    (inferred : agreeingWith (some current) results = .ok type) : ∃ types : List Ty, results = types.map .ok := by
  induction results generalizing current with
  | nil => exact ⟨[], rfl⟩
  | cons result rest step =>
    cases result with
    | error error => cases inferred
    | ok next =>
      by_cases agrees : current.agree next = true
      · rw [agreeingWith_cons_of_agree agrees] at inferred
        obtain ⟨types, rfl⟩ := step inferred
        exact ⟨next :: types, rfl⟩
      · rw [agreeingWith_cons_of_not_agree (Bool.eq_false_iff.mpr agrees)] at inferred
        cases inferred

theorem exists_types_of_agreeing {results : List Inferred} {type : Ty} (inferred : agreeing results = .ok type) :
    ∃ types : List Ty, results = types.map .ok := by
  match results with
  | [] => exact ⟨[], rfl⟩
  | .error error :: rest => cases inferred
  | .ok first :: rest =>
    have fromFirst : agreeingWith (some first) rest = .ok type := inferred
    obtain ⟨types, rfl⟩ := exists_types_of_agreeingWith fromFirst
    exact ⟨first :: types, rfl⟩

/-- Two of the results, in their order, are types that do not agree, and the error names them. -/
def Clash (results : List Inferred) (error : TypeError) : Prop :=
  ∃ first second : Ty, List.Sublist [.ok first, .ok second] results ∧ first.agree second = false ∧
    error = .conflicting first second

theorem Clash.mono {results others : List Inferred} {error : TypeError} (clash : Clash results error)
    (sublist : results.Sublist others) : Clash others error := by
  obtain ⟨first, second, both, apart, named⟩ := clash
  exact ⟨first, second, both.trans sublist, apart, named⟩

/-- **What goes wrong is the error of an item, or two items that do not agree.** The type so far is the type of an item that
was there, so that it takes part in a conflict as itself. -/
theorem clash_of_agreeingWith_eq_error {current : Ty} {results : List Inferred} {error : TypeError}
    (failed : agreeingWith (some current) results = .error error) :
    .error error ∈ results ∨ Clash (.ok current :: results) error := by
  induction results generalizing current with
  | nil => cases failed
  | cons result rest step =>
    cases result with
    | error own =>
      rw [agreeingWith_cons_error] at failed
      exact .inl (failed ▸ List.mem_cons_self)
    | ok next =>
      by_cases agrees : current.agree next = true
      · rw [agreeingWith_cons_of_agree agrees] at failed
        rcases step failed with member | clash
        · exact .inl (List.mem_cons_of_mem _ member)
        · refine .inr (clash.mono ?_)
          split
          · exact List.sublist_cons_self _ _
          · exact (List.sublist_cons_self _ _).cons_cons _
      · rw [Bool.not_eq_true] at agrees
        rw [agreeingWith_cons_of_not_agree agrees, Except.error.injEq] at failed
        exact .inr ⟨current, next, ((List.nil_sublist rest).cons_cons _).cons_cons _, agrees, failed.symm⟩

theorem clash_of_agreeing_eq_error {results : List Inferred} {error : TypeError}
    (failed : agreeing results = .error error) : .error error ∈ results ∨ Clash results error := by
  match results with
  | [] => cases failed
  | .error own :: rest =>
    have same : (.error own : Inferred) = .error error := failed
    exact .inl (same ▸ List.mem_cons_self)
  | .ok first :: rest =>
    have fromFirst : agreeingWith (some first) rest = .error error := failed
    exact (clash_of_agreeingWith_eq_error fromFirst).imp_left (List.mem_cons_of_mem _)

end Inferred

/-! ## Lists, conditionals and cases -/

theorem Expression.inferEach_eq_map (unions : List UnionType) (items : List Expression) :
    Expression.inferEach unions items = items.map (Expression.infer unions) := by
  induction items with
  | nil => rfl
  | cons item rest step => rw [Expression.inferEach, step, List.map_cons]

theorem Branch.inferEach_eq_map (unions : List UnionType) (branches : List Branch) :
    Branch.inferEach unions branches = (branches.map fun branch => branch.body.result).map (Expression.infer unions) := by
  induction branches with
  | nil => rfl
  | cons branch rest step =>
    obtain ⟨_, ⟨_, result⟩⟩ := branch
    rw [Branch.inferEach, step, List.map_cons, List.map_cons]

namespace Expression

variable {unions : List UnionType}

theorem infer_list (items : List Expression) :
    (Expression.list items).infer unions = (Inferred.agreeing (items.map (infer unions))).map Ty.list := by
  rw [infer, inferEach_eq_map]
  rfl

theorem infer_caseOf (predicate : Expression) (branches : List Branch) :
    (Expression.caseOf predicate branches).infer unions =
      Inferred.agreeing ((branches.map fun branch => branch.body.result).map (infer unions)) := by
  rw [infer, Branch.inferEach_eq_map]

theorem infer_conditional (predicate : Expression) (whenTrue whenFalse : Body) :
    (Expression.conditional predicate whenTrue whenFalse).infer unions =
      Inferred.agreeing ([whenTrue.result, whenFalse.result].map (infer unions)) := by
  obtain ⟨_, yes⟩ := whenTrue
  obtain ⟨_, no⟩ := whenFalse
  rw [infer, List.map_cons, List.map_cons, List.map_nil]

theorem infer_list_eq_ok_iff (items : List Expression) (type : Ty) : (Expression.list items).infer unions = .ok type ↔
    ∃ element, Inferred.agreeing (items.map (infer unions)) = .ok element ∧ type = .list element := by
  rw [infer_list]
  cases Inferred.agreeing (items.map (infer unions)) with
  | error error => simp [Except.map]
  | ok element => simp [Except.map, eq_comm]

end Expression

end DerwLang
