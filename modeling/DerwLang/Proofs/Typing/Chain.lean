/-
**Lists and chains.**

`[ a, b, c ]` is typed from the left, with the type so far, and `a :: b :: c :: []` from the right, where each element meets the
list behind it. If the items are `any` or whole, both ways come to the type they share (`infer_chain_eq_ok_iff`), and so the
list and the chain have one type or none (`infer_list_iff_infer_chain`).

Items that are neither may part them: `[ [ x ], [ "a" ], [ 1 ] ]` is typed, and the chain of the same items is not.
-/

import DerwLang.Proofs.Typing.Order

namespace DerwLang

open Ty

/-! ## The type that a chain is taken for -/

namespace Ty

/-- The type is unknown altogether, or known altogether. -/
def Settled (type : Ty) : Prop :=
  type = .any ∨ type.isWhole = true

theorem Settled.isWhole {type : Ty} (settled : type.Settled) (telling : type.isWildcard = false) : type.isWhole = true := by
  rcases settled with rfl | whole
  · cases telling
  · exact whole

theorem Settled.eq_any {type : Ty} (settled : type.Settled) (wild : type.isWildcard = true) : type = .any := by
  rcases settled with same | whole
  · exact same
  · rw [isWildcard_of_isWhole whole] at wild
    cases wild

/-- One item in front of a row. -/
theorem shared_cons {first : Ty} (settled : first.Settled) (rest : List Ty) :
    shared (first :: rest) = if first.isWildcard then shared rest else first := by
  by_cases wild : first.isWildcard = true
  · rw [if_pos wild]
    cases rest with
    | nil => rw [shared_singleton, settled.eq_any wild]; rfl
    | cons next others => exact shared_cons_of_isWildcard wild next others
  · rw [if_neg wild]
    exact shared_cons_of_telling (Bool.eq_false_iff.mpr wild) rest

/-- **The row is typed from the right as it is from the left**: it is enough that the first item agrees with what the rest is
taken for. -/
theorem shared_agree_cons_iff {first : Ty} {rest : List Ty} (settled : first.Settled)
    (settledRest : ∀ type ∈ rest, type.Settled) :
    (∀ type ∈ first :: rest, (shared (first :: rest)).agree type = true) ↔
      (∀ type ∈ rest, (shared rest).agree type = true) ∧ first.agree (shared rest) = true := by
  rw [shared_cons settled, List.forall_mem_cons]
  by_cases wild : first.isWildcard = true
  · rw [if_pos wild, agree_of_isWildcard_right _ wild, agree_of_isWildcard_left wild]
    exact ⟨fun both => ⟨both.2, rfl⟩, fun both => ⟨rfl, both.1⟩⟩
  rw [if_neg wild, agree_refl]
  have whole : first.isWhole = true := settled.isWhole (Bool.eq_false_iff.mpr wild)
  have member := shared_mem_or_eq_any rest
  constructor
  · rintro ⟨-, agrees⟩
    have meets : first.agree (shared rest) = true := by
      rcases member with member | same
      · exact agrees _ member
      · rw [same]
        exact agree_of_isWildcard_right first rfl
    have back : (shared rest).agree first = true := agree_comm first _ ▸ meets
    exact ⟨fun type isIn => agree_of_isWhole whole back (agrees type isIn), meets⟩
  · rintro ⟨agrees, meets⟩
    refine ⟨rfl, fun type isIn => ?_⟩
    by_cases unknown : (shared rest).isWildcard = true
    · exact agree_of_isWildcard_right first (isWildcard_of_shared unknown type isIn)
    · have known : (shared rest).isWhole = true := by
        rcases member with member | same
        · exact (settledRest _ member).isWhole (Bool.eq_false_iff.mpr unknown)
        · exact absurd (same ▸ rfl) unknown
      exact agree_of_isWhole known meets (agrees type isIn)

end Ty

/-! ## Chains -/

namespace Expression

/-- The items one before the other, in front of an empty list. -/
def chain (items : List Expression) : Expression :=
  items.foldr (.binary .prepend) (.list [])

variable {unions : List UnionType}

theorem infer_chain_cons (item : Expression) (rest : List Expression) :
    (chain (item :: rest)).infer unions =
      prependType item (chain rest) (item.infer unions) ((chain rest).infer unions) :=
  rfl

theorem prependType_list_eq_ok_iff {left right : Expression} (head element type : Ty) :
    prependType left right (.ok head) (.ok (.list element)) = .ok type ↔
      head.agree element = true ∧ type = .list (if head.isWildcard then element else head) := by
  simp only [prependType, bind, Except.bind, pure, Except.pure, isWildcard_list, Bool.false_eq_true, if_false,
    listElement?_eq_some.mpr rfl, merge?]
  by_cases agrees : head.agree element = true
  · simp only [agrees, if_true, Except.ok.injEq, true_and]
    exact eq_comm
  · simp only [agrees, if_false, reduceCtorEq, false_and, Bool.false_eq_true]

/-- **A chain of items that are `any` or whole is typed as a list of what they share.** -/
theorem infer_chain_eq_ok_iff {items : List Expression} {types : List Ty} (inferred : HaveTypes unions items types)
    (settled : ∀ type ∈ types, type.Settled) (type : Ty) : (chain items).infer unions = .ok type ↔
      type = .list (shared types) ∧ ∀ other ∈ types, (shared types).agree other = true := by
  induction inferred generalizing type with
  | nil =>
    have empty : (chain []).infer unions = .ok (.list (shared [])) := rfl
    rw [empty, Except.ok.injEq]
    exact ⟨fun same => ⟨same.symm, by simp⟩, fun both => both.1.symm⟩
  | @cons item first rest others own _ step =>
    rw [List.forall_mem_cons] at settled
    have tail := step settled.2
    rw [infer_chain_cons, own, shared_agree_cons_iff settled.1 settled.2, shared_cons settled.1]
    cases behind : (chain rest).infer unions with
    | ok found =>
      obtain ⟨rfl, agrees⟩ := (tail found).mp behind
      rw [prependType_list_eq_ok_iff]
      exact ⟨fun both => ⟨both.2, agrees, both.1⟩, fun both => ⟨both.2.2, both.1⟩⟩
    | error error =>
      constructor
      · intro typed
        cases typed
      · rintro ⟨-, agrees, -⟩
        rw [behind] at tail
        cases (tail _).mpr ⟨rfl, agrees⟩

theorem exists_settled_types {items : List Expression}
    (settled : ∀ item ∈ items, ∃ type, item.infer unions = .ok type ∧ (type = .any ∨ type.isWhole = true)) :
    ∃ types, HaveTypes unions items types ∧ ∀ type ∈ types, type.Settled := by
  induction items with
  | nil => exact ⟨[], .nil, by simp⟩
  | cons item rest step =>
    rw [List.forall_mem_cons] at settled
    obtain ⟨⟨type, own, isSettled⟩, others⟩ := settled
    obtain ⟨types, inferred, areSettled⟩ := step others
    exact ⟨type :: types, .cons own inferred, List.forall_mem_cons.mpr ⟨isSettled, areSettled⟩⟩

/-- **A list and the chain of its items have one type or none**, if each item is `any` or whole. -/
theorem infer_list_iff_infer_chain {items : List Expression}
    (settled : ∀ item ∈ items, ∃ type, item.infer unions = .ok type ∧ (type = .any ∨ type.isWhole = true)) (type : Ty) :
    (Expression.list items).infer unions = .ok type ↔ (chain items).infer unions = .ok type := by
  obtain ⟨types, inferred, areSettled⟩ := exists_settled_types settled
  rw [infer_chain_eq_ok_iff inferred areSettled, infer_list_eq_ok_iff, inferred.map_eq]
  simp only [Inferred.agreeing_eq_ok_iff]
  constructor
  · rintro ⟨element, ⟨rfl, agrees⟩, rfl⟩
    exact ⟨rfl, agrees⟩
  · rintro ⟨rfl, agrees⟩
    exact ⟨shared types, ⟨rfl, agrees⟩, rfl⟩

/-- `[ x, [ 1 ], y, [ 2 ] ]` and `x :: [ 1 ] :: y :: [ 2 ] :: []` are lists of lists of numbers, and with `[ "a" ]` behind neither
of them has a type. -/
theorem infer_list_iff_infer_chain_mixed :
    (∀ item ∈ [Expression.value "x", .list [.value "1"], .value "y", .list [.value "2"], .list [.string "a"]],
        ∃ type, item.infer [] = .ok type ∧ (type = .any ∨ type.isWhole = true)) ∧
      (chain [.value "x", .list [.value "1"], .value "y", .list [.value "2"]]).infer [] = .ok (.list (.list .number)) ∧
      ∀ type, (chain [.value "x", .list [.value "1"], .value "y", .list [.value "2"], .list [.string "a"]]).infer [] ≠
        .ok type := by
  have settled : ∀ item ∈ [Expression.value "x", .list [.value "1"], .value "y", .list [.value "2"], .list [.string "a"]],
      ∃ type, item.infer [] = .ok type ∧ (type = .any ∨ type.isWhole = true) := by
    simp only [List.forall_mem_cons]
    exact ⟨⟨.any, rfl, .inl rfl⟩, ⟨.list .number, rfl, .inr rfl⟩, ⟨.any, rfl, .inl rfl⟩, ⟨.list .number, rfl, .inr rfl⟩,
      ⟨.list .string, rfl, .inr rfl⟩, by simp⟩
  refine ⟨settled, (infer_list_iff_infer_chain (fun item member => settled item ?_) _).mp rfl, fun type typed => ?_⟩
  · simp only [List.mem_cons] at member ⊢
    tauto
  · cases (infer_list_iff_infer_chain settled type).mpr typed

/-- Items that are neither `any` nor whole may part them. -/
example :
    (Expression.list [.list [.value "x"], .list [.string "a"], .list [.value "1"]]).infer [] = .ok (.list (.list .any)) ∧
      (chain [.list [.value "x"], .list [.string "a"], .list [.value "1"]]).infer [] =
        .error (.invalidPrepend "List string" "List number") :=
  ⟨rfl, rfl⟩

end Expression

end DerwLang
