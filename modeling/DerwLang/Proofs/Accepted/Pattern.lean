/-
**What patterns are made of.**

A window that is read as a pattern is read whole, so each of its tokens is one of those that patterns are written with.
Main fact:

* `kinds_pattern`: each token of a pattern belongs to a part of it, is a `::`, or is `default`.
-/

import DerwLang.Proofs.Reading.Pattern
import DerwLang.Proofs.Rules.Pattern

namespace DerwLang

open Grammar

/-- A kind of token that occurs in patterns. -/
def Token.Kind.inPattern (kind : Token.Kind) : Bool :=
  Written.isPartKind kind || kind == .operator .cons || kind == .keyword .defaultWord

theorem Token.Kind.inPattern_of_part {kind : Token.Kind} (part : Written.isPartKind kind = true) : kind.inPattern = true := by
  rw [inPattern, part]
  rfl

/-- Patterns hold no comments and no white space. -/
theorem Token.not_trivia_of_inPattern {token : Token} (known : token.kind.inPattern = true) : token.isTrivia = false := by
  unfold Token.isTrivia
  revert known
  cases token.kind <;> first | exact fun _ => rfl | exact fun known => absurd known (by decide)

namespace Grammar

/-! ## Parts -/

/-- The fields of a tag are read from tokens of parts. -/
theorem PatternFieldsRule.kinds {tokens : List Token} {names : List String} {ending : Window}
    (rule : PatternFieldsRule tokens names ending) :
    ∃ own, tokens = own ++ ending.tokens ∧ ∀ token ∈ own, Written.isPartKind token.kind = true := by
  induction rule with
  | none closes => exact ⟨[_], rfl, by simp [closes, Written.isPartKind]⟩
  | last isName closes => exact ⟨[_, _], rfl, by simp [isName, closes, Written.isPartKind]⟩
  | more isName isComma _ step =>
    obtain ⟨own, rfl, known⟩ := step
    exact ⟨_ :: _ :: own, rfl, by simpa [isName, isComma, Written.isPartKind] using known⟩

/-- A tag that is read to the end is followed by tokens of parts alone. -/
theorem TagPatternRule.kinds {tag : String} {window ending : Window} {shape : TagPattern}
    (rule : TagPatternRule tag window shape ending) (ended : ending.tokens = []) :
    ∀ token ∈ window.tokens, Written.isPartKind token.kind = true := by
  cases rule with
  | bare => simp [ended]
  | braced tokens opens fields =>
    obtain ⟨own, rfl, known⟩ := fields.kinds
    rw [tokens, ended, List.append_nil]
    exact List.forall_mem_cons.mpr ⟨by rw [opens]; rfl, known⟩

/-- **A part of a list pattern is read from tokens of parts.** -/
theorem ListPartRule.kinds {window : Window} {part : ListPart} (rule : ListPartRule window part) :
    ∀ token ∈ window.tokens, Written.isPartKind token.kind = true := by
  cases rule with
  | string tokens kind | formatString tokens kind | emptyList tokens kind | name tokens kind =>
    simp [tokens, kind, Written.isPartKind]
  | tag tokens isName _ tagged ended =>
    rw [tokens]
    exact List.forall_mem_cons.mpr ⟨by rw [isName]; rfl, tagged.kinds ended⟩

theorem ListPartsRule.kinds {windows : List Window} {parts : List ListPart} (rule : ListPartsRule windows parts) :
    ∀ window ∈ windows, ∀ token ∈ window.tokens, Written.isPartKind token.kind = true := by
  induction rule with
  | nil => simp
  | cons first _ _ step => exact List.forall_mem_cons.mpr ⟨first.kinds, step⟩

/-! ## Patterns -/

theorem SinglePatternRule.kinds {window : Window} {shape : Pattern} (rule : SinglePatternRule window shape) :
    ∀ token ∈ window.tokens, token.kind.inPattern = true := by
  cases rule with
  | string tokens kind | formatString tokens kind | emptyList tokens kind | otherwise tokens kind =>
    simp [tokens, kind, Token.Kind.inPattern, Written.isPartKind]
  | tag tokens isName _ tagged ended =>
    rw [tokens]
    exact List.forall_mem_cons.mpr ⟨by rw [isName]; rfl, fun token member =>
      Token.Kind.inPattern_of_part (tagged.kinds ended token member)⟩

/-- **Patterns are read from tokens of patterns.** -/
theorem kinds_pattern {window : Window} {shape : Pattern} (read : pattern window = .ok shape) :
    ∀ token ∈ window.tokens, token.kind.inPattern = true := by
  cases pattern_rule read with
  | list _ each =>
    have separates : ∀ token : Token, token.kind = .operator .cons → token.kind.inPattern = true := by
      intro token isCons
      rw [isCons]
      rfl
    exact (separated_splitFrom _ _ _ _).forall_tokens separates fun part member token own =>
      Token.Kind.inPattern_of_part (each.kinds part member token own)
  | single found => exact found.kinds

end Grammar

end DerwLang
