/-
**Comments.**

A comment is a single word. A line comment goes on to the end of its line (`stands_comment`), and a block comment to its
closing bracket, whatever follows (`stands_multilineComment`).
-/

import DerwLang.Proofs.Layout.Word

namespace DerwLang

open Layout Lexeme

/-- A line comment stands before the end of its line. -/
theorem stands_comment {own after : List Char} (isWord : IsWord .comment own)
    (ends : ∀ c ∈ after.head?, c = '\n') : Doc.Stands .comment own after := by
  obtain ⟨c, rest, rfl, kind, all⟩ := isWord_iff.mp isWord
  obtain ⟨more, rfl | rfl, rfl⟩ := start_of_isComment (by rw [kind]; rfl)
  · refine stands_of_classify (by decide) ?_
    rw [classify_comment] at all
    have whole : more.takeWhile (· != '\n') = more :=
      (List.takeWhile_prefix _).eq_of_length (Nat.le_antisymm (List.takeWhile_prefix _).length_le (by simpa using all))
    have line : ∀ d ∈ more, (d != '\n') = true := List.takeWhile_eq_self_iff.mp whole
    have stop : after.takeWhile (· != '\n') = [] := by
      cases after with
      | nil => rfl
      | cons d others => simp [ends d rfl]
    rw [List.cons_append, classify_comment, List.takeWhile_append_of_pos line, stop, List.append_nil]
    rfl
  · rw [classify_multilineComment] at kind
    cases found : blockCommentLength more <;> simp [found] at kind

/-- A block comment stands before anything. -/
theorem stands_multilineComment {own : List Char} (isWord : IsWord .multilineComment own) (after : List Char) :
    Doc.Stands .multilineComment own after := by
  obtain ⟨c, rest, rfl, kind, all⟩ := isWord_iff.mp isWord
  obtain ⟨more, rfl | rfl, rfl⟩ := start_of_isComment (by rw [kind]; rfl)
  · simp [classify_comment] at kind
  · rw [classify_multilineComment] at kind all
    cases found : blockCommentLength more with
    | none => simp [found] at kind
    | some length =>
      have whole : length = more.length := by
        have := blockCommentLength_le found
        simp [found] at all
        omega
      refine stands_of_classify (by decide) ?_
      rw [List.cons_append, classify_multilineComment, blockCommentLength_append found]
      simp [whole]

end DerwLang
