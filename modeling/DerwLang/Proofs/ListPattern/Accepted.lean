/-
**The list patterns that the grammar accepts.**

A list pattern has a `::` and so two parts at least, and `[]` is its last part if it has one (`accepted_shape`). No
single part reaches over a `::`, as each of its tokens is a name, a text, an empty list, a comma or a bracket.
-/

import DerwLang.Proofs.Accepted.Pattern
import DerwLang.Proofs.ListPattern.Matching

namespace DerwLang.Grammar

/-- Every window of a list pattern is a part, and `[]` is no early one. -/
theorem ListPartsRule.shape {windows : List Window} {parts : List ListPart} (rule : ListPartsRule windows parts) :
    parts.length = windows.length ∧ Ecma.ClosedAtEnd parts := by
  induction rule with
  | nil => exact ⟨rfl, trivial⟩
  | cons _ late _ step =>
    obtain ⟨length, closed⟩ := step
    refine ⟨by rw [List.length_cons, List.length_cons, length], fun isEmpty => ?_, closed⟩
    rwa [late isEmpty, List.length_nil, List.length_eq_zero_iff] at length

/-- A separator parts the windows, as no part holds one. -/
theorem ListPartsRule.several {tokens : List Token} {windows : List Window} {parts : List ListPart}
    (rule : ListPartsRule windows parts) (cuts : Separated (.operator .cons) tokens windows)
    (separated : ∃ token ∈ tokens, token.kind = .operator .cons) : 2 ≤ parts.length := by
  rw [rule.shape.1]
  cases cuts with
  | single =>
    obtain ⟨token, member, isCons⟩ := separated
    have known := rule.kinds _ (List.mem_singleton_self _) token member
    rw [isCons] at known
    exact absurd known (by decide)
  | cut _ _ later => exact Nat.succ_le_succ (List.length_pos_iff.mpr later.ne_nil)

/-- **A list pattern that the grammar accepts** has two parts at least, and `[]` in the last place only. -/
theorem accepted_shape {window : Window} {parts : List ListPart} (read : pattern window = .ok (.list parts)) :
    2 ≤ parts.length ∧ Ecma.ClosedAtEnd parts := by
  cases pattern_rule read with
  | list separated each => exact ⟨each.several (separated_splitFrom _ _ _ _) separated, each.shape.2⟩
  | single found => cases found

end DerwLang.Grammar
