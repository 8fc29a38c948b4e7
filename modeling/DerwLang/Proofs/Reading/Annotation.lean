/-
**Annotations are read back from their text.**

White space and comments do not count in an annotation, so what it is read as depends on its other tokens alone
(`signatureStep_significant`). A type that was read from the tokens of any sources is sound, and the other tokens of the text
of a sound type are the words of the type. Main facts:

* `sound_typeOf_lexed`: what is read of tokens that were lexed is sound;
* `typeOf_text_of_typeOf`: a type that was read is read again from its text.
-/

import DerwLang.Proofs.Accepted.Type
import DerwLang.Proofs.Reading.Module

namespace DerwLang

open Grammar Layout

/-! ## Tokens that do not count -/

theorem significant_significant (tokens : List Token) :
    Token.significant (Token.significant tokens) = Token.significant tokens := by
  rw [Token.significant, Token.significant, List.filter_filter]
  simp only [Bool.and_self]

/-- The segments of an annotation are those of its significant tokens. -/
theorem ofTokens_significant {tokens : List Token} {segments : List TypeSegment} :
    TypeSegment.ofTokens (Token.significant tokens) = .ok segments ↔ TypeSegment.ofTokens tokens = .ok segments := by
  rw [TypeSegment.ofTokens, TypeSegment.ofTokens]
  simp only [significant_significant]
  split
  · exact Iff.rfl
  · -- the errors name different tokens, but they are errors on both sides
    split
    · simp only [reduceCtorEq]
    · split
      · simp only [reduceCtorEq]
      · exact Iff.rfl

/-- The line is told in errors only. -/
theorem segmentType_line {nested : List Token → Parsed (List Ty)} {line : Nat} {segment : TypeSegment} {type : Ty}
    (read : segmentType nested line segment = .ok type) (other : Nat) : segmentType nested other segment = .ok type := by
  cases segment with
  | plain tokens =>
    cases tokens with
    | nil => cases read
    | cons head rest => exact read
  | function tokens => exact read

/-- **What an annotation is read as depends on its significant tokens alone.** -/
theorem signatureStep_significant {nested : List Token → Parsed (List Ty)} {tokens others : List Token} {types : List Ty}
    (same : Token.significant tokens = Token.significant others) (read : signatureStep nested tokens = .ok types) :
    signatureStep nested others = .ok types := by
  rw [signatureStep] at read ⊢
  cases found : TypeSegment.ofTokens tokens with
  | error error =>
    rw [found] at read
    cases read
  | ok segments =>
    rw [found] at read
    have cut : TypeSegment.ofTokens others = .ok segments := by
      rw [← ofTokens_significant, ← same, ofTokens_significant]
      exact found
    rw [cut]
    refine mapM_ok ?_
    exact (forall₂_of_mapM read).imp fun _ _ own => segmentType_line own _

/-! ## Types of any tokens -/

/-- What is read of tokens is read of the significant ones, by a reader that goes as deep. -/
theorem signatureStep_of_signature {tokens : List Token} {types : List Ty} (read : signature tokens = .ok types) :
    ∃ depth, signatureStep (signatureAt depth) (Token.significant tokens) = .ok types := by
  rw [signature] at read
  cases length : tokens.length with
  | zero =>
    rw [length] at read
    cases read
  | succ depth =>
    rw [length, signatureAt] at read
    exact ⟨depth, signatureStep_significant (significant_significant tokens).symm read⟩

/-- **A type that was read of lexed tokens is sound**, the tokens being those of one source or of many. -/
theorem sound_typeOf_lexed {tokens : List Token}
    (lexed : ∀ token ∈ tokens, ∃ source line column, token ∈ tokenizeAt source line column) {type : Ty}
    (read : typeOf tokens = .ok type) : Sound.Annotation type := by
  have grammatical : Grammatical (Token.significant tokens) := by
    refine grammatical_significant fun token member => ?_
    obtain ⟨source, line, column, among⟩ := lexed token member
    exact genuine_tokenizeAt among
  obtain ⟨types, found, rfl⟩ := ok_of_map read
  obtain ⟨depth, again⟩ := signatureStep_of_signature found
  obtain ⟨length, sound⟩ := readsTypes_signatureAt (depth + 1) grammatical again
  refine annotation_typeOfParts ?_ sound
  rw [← List.length_pos_iff, length, List.length_pos_iff]
  exact typeParts_ne_nil 0 _

/-! ## The text of a type -/

namespace Written

open Doc

/-- The text of a sound type consists of the words of the type, and of white space. -/
theorem significant_text {t : Ty} (sound : Sound.Annotation t) :
    Token.significant (tokenize t.text) = (type t).tokens ⟨1, 1⟩ := by
  have phrase : Phrase true (type t) := phrase_type t sound
  exact significant_phrase phrase (chars_type t)

/-- The text of a sound type is read as the type. -/
theorem typeOf_text {t : Ty} (sound : Sound.Annotation t) : typeOf (tokenize t.text) = .ok t := by
  have words : Token.significant (tokenize t.text) = Token.significant ((type t).tokens ⟨1, 1⟩) := by
    have same := congrArg Token.significant (significant_text sound)
    rwa [significant_significant] at same
  have enough : (type t).count ≤ (tokenize t.text).length := by
    rw [← length_tokens ⟨1, 1⟩ (type t), ← significant_text sound]
    exact List.length_filter_le _ _
  -- the text has more tokens than the type has words, so the reader of the text goes deeper than the words need
  obtain ⟨depth, length⟩ : ∃ depth, (tokenize t.text).length = depth + 1 := by
    refine Nat.exists_eq_succ_of_ne_zero fun empty => ?_
    have none := read_signatureAt sound (Nat.le_refl _) ⟨1, 1⟩
    rw [show (type t).count = 0 by omega] at none
    cases none
  have read := read_signatureAt sound enough ⟨1, 1⟩
  rw [length, signatureAt] at read
  rw [typeOf, signature, length, signatureAt, signatureStep_significant words.symm read]
  exact congrArg Except.ok (typeOfParts_typeSides sound)

end Written

/-- **A type that was read of lexed tokens is read again of its text.** -/
theorem typeOf_text_of_typeOf {tokens : List Token}
    (lexed : ∀ token ∈ tokens, ∃ source line column, token ∈ tokenizeAt source line column) {type : Ty}
    (read : typeOf tokens = .ok type) : typeOf (tokenize type.text) = .ok type :=
  Written.typeOf_text (sound_typeOf_lexed lexed read)

/-- An argument that is a function type, with brackets and a comment that the text of the type leaves out. -/
theorem typeOf_text_of_typeOf_brackets :
    let type := Ty.function [.function [.variable "a", .variable "b"], .named "Maybe" [.named "List" [.any]]]
    (∀ token ∈ tokenize "(a -> (b)) ->\n\x7b-to-\x7d Maybe (List any)", ∃ source line column,
      token ∈ tokenizeAt source line column) ∧
    typeOf (tokenize "(a -> (b)) ->\n\x7b-to-\x7d Maybe (List any)") = .ok type ∧
    type.text = "(a -> b) -> Maybe (List any)" ∧
    typeOf (tokenize type.text) = .ok type := by
  intro type
  have lexed : ∀ token ∈ tokenize "(a -> (b)) ->\n\x7b-to-\x7d Maybe (List any)", ∃ source line column,
      token ∈ tokenizeAt source line column := fun _ member => ⟨_, _, _, member⟩
  have read : typeOf (tokenize "(a -> (b)) ->\n\x7b-to-\x7d Maybe (List any)") = .ok type := by
    with_unfolding_all rfl
  exact ⟨lexed, read, by decide, typeOf_text_of_typeOf lexed read⟩

end DerwLang
