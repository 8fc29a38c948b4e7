/-
**Sets of code points as intervals.**

A character class is a list of closed intervals of code points in increasing order, and a code point is in
the class when one of the intervals holds it.
-/

namespace DerwLang.Text

/-- Code points as closed intervals in increasing order. -/
abbrev CodeRanges := List (Nat × Nat)

/-- One of the intervals holds the code point. -/
def CodeRanges.contains (ranges : CodeRanges) (code : Nat) : Bool :=
  ranges.any fun range => range.1 ≤ code && code ≤ range.2

theorem CodeRanges.contains_iff {ranges : CodeRanges} {code : Nat} :
    ranges.contains code = true ↔ ∃ range ∈ ranges, range.1 ≤ code ∧ code ≤ range.2 := by
  simp [CodeRanges.contains]

end DerwLang.Text
