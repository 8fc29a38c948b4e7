/-
**Which lines are blamed.**

Tokens stand in their order (`ordered_tokenize`), and a declaration is a run of them, so all that is read of it lies between
the line of its first token and the line on which its last token ends. A declaration that cannot be read is blamed on one of
these lines, however deep the failure lies (`line_of_errors`).

A range without a bound and a signature without a type are left: no token stands there, and the first line of the source is
blamed (`emptyBound_misplaced`).
-/

import DerwLang.Proofs.Lines.Declaration
import DerwLang.Proofs.Rules.Step
import Mathlib.Order.Interval.Set.Defs

namespace DerwLang

open Grammar

/-! ## Order -/

/-- The second token stands where the first one ends, or behind it. -/
def Token.Before (first second : Token) : Prop :=
  first.endLine ≤ second.line

theorem Token.line_le_endLine (token : Token) : token.line ≤ token.endLine :=
  Nat.le_add_right _ _

instance : IsTrans Token Token.Before where
  trans _ second _ early late := (early.trans second.line_le_endLine).trans late

/-- **The tokens of a source stand in order.** -/
theorem ordered_tokenize (source : String) : (tokenize source).Pairwise Token.Before := by
  have chain := Token.isChain_place ⟨1, 1⟩ (Lexeme.scan source.toList)
  exact List.isChain_iff_pairwise.mp (chain.imp fun previous next adjoin => adjoin.1.ge)

/-- Tokens in order lie between the line of the first one and the end of the last one. -/
theorem on_of_ordered {first last : Token} {tokens : List Token} (ordered : tokens.Pairwise Token.Before)
    (isFirst : tokens.head? = some first) (isLast : tokens.getLast? = some last) :
    ∀ token ∈ tokens, token.On (Set.Icc first.line last.endLine) := by
  intro token member offset inside
  have upper : token.endLine ≤ last.endLine := by
    obtain ⟨front, rfl⟩ := List.getLast?_eq_some_iff.mp isLast
    rcases List.mem_append.mp member with early | same
    · exact ((List.pairwise_append.mp ordered).2.2 token early last (by simp)).trans last.line_le_endLine
    · rw [List.mem_singleton.mp same]
  have lower : first.line ≤ token.line := by
    obtain ⟨rest, rfl⟩ := List.head?_eq_some_iff.mp isFirst
    rcases List.mem_cons.mp member with same | later
    · rw [same]
    · exact first.line_le_endLine.trans (List.rel_of_pairwise_cons ordered later)
  unfold Token.endLine at upper
  exact ⟨by omega, by unfold Token.endLine; omega⟩

/-! ## Declarations are runs of tokens -/

theorem blocksFrom_tokens_ne_nil (column : Nat) (opened : Opened) (before : Nat) (previous : Token) (rest : List Token) :
    ∀ window ∈ blocksFrom column opened before previous rest, window.tokens ≠ [] := by
  fun_induction blocksFrom column opened before previous rest with
  | case1 => simp
  | case2 opened before previous token rest starts step => simpa using step
  | case3 opened before previous token rest stays step =>
    revert step
    cases blocksFrom column (opened.push token) before token rest with
    | nil => simp [Window.pushFirst]
    | cons window more =>
      rw [List.forall_mem_cons]
      exact fun step => List.forall_mem_cons.mpr ⟨List.cons_ne_nil _ _, step.2⟩

/-- A declaration of a source is some of its tokens, in order. -/
theorem ordered_of_mem_blockTokens {source : String} {tokens : List Token} (member : tokens ∈ blockTokens source) :
    tokens ≠ [] ∧ tokens.Pairwise Token.Before := by
  obtain ⟨window, among, rfl⟩ := List.mem_map.mp member
  refine ⟨?_, ?_⟩
  · revert among
    cases (tokenize source).filter fun token => token.kind != .whitespace with
    | nil => simp [splitBlocks]
    | cons first rest => exact blocksFrom_tokens_ne_nil _ _ _ _ _ window
  · have sublist := List.sublist_flatten_of_mem (List.mem_map_of_mem (f := Window.tokens) among)
    rw [← List.flatMap_def, flatMap_splitBlocks] at sublist
    exact (ordered_tokenize source).sublist (sublist.trans List.filter_sublist)

/-! ## Errors -/

/-- The line of an error is one that is known, or the first when the cause is one that has no place. -/
theorem line_of_lowers {lines : Set Nat} {count : Nat} {related : Option Block → Option Block → Prop}
    {first second : Parsed (Option Block)} {error : ParseError} (both : Lowers lines count related first second)
    (failed : errorOf? first = some error) : error.line ∈ lines ∨ error.cause.isUnplaced = true ∧ error.line = 1 := by
  cases both with
  | ok same => cases failed
  | error same =>
    obtain rfl := Option.some.inj failed
    cases same with
    | placed cause known => exact .inl known
    | unplaced isUnplaced => exact .inr ⟨isUnplaced, rfl⟩

/-- **The errors of a module are those of its declarations, and each is blamed on a line of its own declaration**, from the
line of the first token to the line where the last one ends, unless a range lacks a bound or a signature has no type: then
the line is one of these or the first of the source. -/
theorem line_of_errors (source name : String) :
    (parseModule source name).errors = (blockTokens source).filterMap (fun tokens => errorOf? (blockOfTokens tokens)) ∧
    ∀ tokens ∈ blockTokens source, ∀ error, errorOf? (blockOfTokens tokens) = some error →
      ∃ first last, tokens.head? = some first ∧ tokens.getLast? = some last ∧
        (first.line ≤ error.line ∧ error.line ≤ last.endLine ∨ error.cause.isUnplaced = true ∧ error.line = 1) := by
  refine ⟨List.filterMap_map, fun tokens member error failed => ?_⟩
  obtain ⟨filled, ordered⟩ := ordered_of_mem_blockTokens member
  have isFirst := List.head?_eq_some_head filled
  have isLast := List.getLast?_eq_some_getLast filled
  have both := lowers_blockOfTokens 0 (on_of_ordered ordered isFirst isLast)
  exact ⟨_, _, isFirst, isLast, line_of_lowers both failed⟩

/-- A constant, and below it a list in a list, with a bracket that nothing closes. -/
def unclosedBracket : String :=
  "x =\n    1\n\ny =\n    [ 1,\n      [ 2, (3 ] ]\n"

/-- The tokens of the second constant. -/
def unclosedTokens : List Token :=
  [⟨.identifier, "y", 4, 1⟩, ⟨.assign, "=", 4, 3⟩, ⟨.literal, "[ 1,\n      [ 2, (3 ] ]", 5, 5⟩]

theorem line_of_errors_unclosed :
    unclosedTokens ∈ blockTokens unclosedBracket ∧
      errorOf? (blockOfTokens unclosedTokens) = some ⟨.unclosed .openBracket .closeBracket, 6⟩ ∧
      ∃ first last, unclosedTokens.head? = some first ∧ unclosedTokens.getLast? = some last ∧
        (first.line ≤ 6 ∧ 6 ≤ last.endLine ∨
          (ParseError.Cause.unclosed .openBracket .closeBracket).isUnplaced = true ∧ 6 = 1) := by
  have member : unclosedTokens ∈ blockTokens unclosedBracket := by decide
  have failed : errorOf? (blockOfTokens unclosedTokens) = some ⟨.unclosed .openBracket .closeBracket, 6⟩ := by
    with_unfolding_all rfl
  exact ⟨member, failed, (line_of_errors unclosedBracket "Main").2 _ member _ failed⟩

/-- A constant, and below it a range from nothing to three in a list. -/
def openRange : String :=
  "x =\n    1\n\ny =\n    [ ..3 ]\n"

/-- The tokens of the second constant. -/
def openRangeTokens : List Token :=
  [⟨.identifier, "y", 4, 1⟩, ⟨.assign, "=", 4, 3⟩, ⟨.literal, "[ ..3 ]", 5, 5⟩]

/-- **A bound that is missing is blamed on the first line**, where another declaration stands. -/
theorem emptyBound_misplaced :
    (parseModule openRange "Main").errors = [⟨.rangeBound, 1⟩] ∧ openRangeTokens ∈ blockTokens openRange ∧
      errorOf? (blockOfTokens openRangeTokens) = some ⟨.rangeBound, 1⟩ ∧
      ¬ ∃ first ∈ openRangeTokens.head?, first.line ≤ 1 := by
  decide +kernel

end DerwLang
