/-
**Words with spaces between them.**

A space ends every token that is known, except that blanks and a comment to the end of its line go on over it. So texts that are
single tokens on their own are read back from the line that has them in order with a space between neighbours, whichever tokens
they are (`tokenize_spaced`): quoted texts and lists keep the brackets and quotes they hold to themselves, and no sign goes on with
what stands behind the space.

* `scan_before_space`: a single word in front of a space is the first lexeme;
* `scan_spaced`: the lexemes of a line of such words.
-/

import DerwLang.Proofs.Lexing.LongestMatch
import DerwLang.Proofs.Lexing.Seam
import DerwLang.Syntax.Operator

namespace DerwLang

open Lexeme

/-! ## Single tokens -/

/-- A space ends the tokens of the kind: they are neither blanks, nor comments to the end of the line, nor text that no rule
takes. -/
def Token.Kind.endsAtSpace (kind : Token.Kind) : Bool :=
  kind != .whitespace && kind != .comment && kind != .unknown

/-- What a token is, wherever it stands. -/
def Token.content (token : Token) : Token.Kind × String :=
  (token.kind, token.body)

/-- The text is on its own a single token that a space ends. -/
def IsSingle (text : String) : Prop :=
  ∃ token, tokenize text = [token] ∧ token.kind.endsAtSpace = true

instance (text : String) : Decidable (IsSingle text) :=
  match whole : tokenize text with
  | [] => isFalse (by simp [IsSingle, whole])
  | [token] => decidable_of_iff (token.kind.endsAtSpace = true) (by simp [IsSingle, whole])
  | _ :: _ :: _ => isFalse (by simp [IsSingle, whole])

theorem Token.content_place (position : Position) (lexemes : List Lexeme) :
    (place position lexemes).map content = lexemes.map fun lexeme => (lexeme.kind, String.ofList lexeme.chars) := by
  induction lexemes generalizing position with
  | nil => rfl
  | cons lexeme more step => rw [place, List.map_cons, step, List.map_cons, content]

theorem Token.content_tokenize (source : String) :
    (tokenize source).map content = (scan source.toList).map fun lexeme => (lexeme.kind, String.ofList lexeme.chars) :=
  content_place _ _

theorem IsSingle.isWord {text : String} (single : IsSingle text) :
    ∃ kind, IsWord kind text.toList ∧ kind.endsAtSpace = true := by
  obtain ⟨token, whole, ends⟩ := single
  obtain ⟨kind, isWord⟩ := isWord_of_single (show (tokenize text).length = 1 by rw [whole]; rfl)
  have contents := Token.content_tokenize text
  rw [whole, show scan text.toList = [⟨kind, text.toList⟩] from isWord] at contents
  have same : token.kind = kind := congrArg Prod.fst (List.cons.inj contents).1
  exact ⟨kind, isWord, same ▸ ends⟩

/-! ## Words in front of a space -/

/-- **A single word in front of a space is read as if nothing followed.** -/
theorem scan_before_space {kind : Token.Kind} {own : List Char} (isWord : IsWord kind own) (ends : kind.endsAtSpace = true)
    (after : List Char) : scan (own ++ ' ' :: after) = ⟨kind, own⟩ :: scan (' ' :: after) := by
  obtain ⟨c, rest, rfl, rfl, all⟩ := isWord_iff.mp isWord
  simp only [Token.Kind.endsAtSpace, Bool.and_eq_true, bne_iff_ne] at ends
  obtain ⟨⟨noBlanks, noComment⟩, known⟩ := ends
  have visible : Text.isBlank c = false := by
    refine Bool.eq_false_iff.mpr fun blank => noBlanks ?_
    rw [classify_blank blank]
  have reach : (classify c rest).2 = rest.length := Nat.le_antisymm (classify_le c rest) all
  rw [List.cons_append, scan_cons, classify_seam .space visible known (fun comment => absurd comment noComment), reach,
    List.take_left, List.drop_left]

/-- A space in front of something that shows is a token by itself. -/
theorem scan_space {after : List Char} (starts : ∀ c ∈ after.head?, Text.isBlank c = false) :
    scan (' ' :: after) = ⟨.whitespace, [' ']⟩ :: scan after := by
  have none_ : after.takeWhile Text.isBlank = [] := by
    cases after with
    | nil => rfl
    | cons c rest => exact List.takeWhile_cons_of_neg (by simp [starts c rfl])
  rw [scan_cons, classify_blank (by decide), none_]
  rfl

/-- A single word shows from its first character on. -/
theorem IsWord.visible {kind : Token.Kind} {own : List Char} (isWord : IsWord kind own) (ends : kind.endsAtSpace = true) :
    ∃ c rest, own = c :: rest ∧ Text.isBlank c = false := by
  obtain ⟨c, rest, rfl, rfl, -⟩ := isWord_iff.mp isWord
  refine ⟨c, rest, rfl, Bool.eq_false_iff.mpr fun blank => ?_⟩
  simp [classify_blank blank, Token.Kind.endsAtSpace] at ends

/-- **The lexemes of single words with spaces between them** are the words and the spaces. -/
theorem scan_spaced (lexemes : List Lexeme)
    (words : ∀ lexeme ∈ lexemes, IsWord lexeme.kind lexeme.chars ∧ lexeme.kind.endsAtSpace = true) :
    scan ([' '].intercalate (lexemes.map Lexeme.chars)) = lexemes.intersperse ⟨.whitespace, [' ']⟩ := by
  induction lexemes with
  | nil => rfl
  | cons first more step =>
    obtain ⟨here, later⟩ := List.forall_mem_cons.mp words
    cases more with
    | nil => exact (congrArg scan (by simp)).trans here.1
    | cons second others =>
      have starts : ∀ c ∈ ([' '].intercalate ((second :: others).map Lexeme.chars)).head?, Text.isBlank c = false := by
        obtain ⟨isWord, ends⟩ := later second List.mem_cons_self
        obtain ⟨c, rest, own, visible⟩ := isWord.visible ends
        cases others <;> simp [List.intercalate, own, visible]
      have line : [' '].intercalate ((first :: second :: others).map Lexeme.chars) =
          first.chars ++ ' ' :: [' '].intercalate ((second :: others).map Lexeme.chars) := by
        simp [List.intercalate]
      rw [line, scan_before_space here.1 here.2, scan_space starts, step later]
      rfl

/-! ## Tokens -/

theorem map_intersperse {α β : Type} (image : α → β) (between : α) (parts : List α) :
    (parts.intersperse between).map image = (parts.map image).intersperse (image between) := by
  induction parts with
  | nil => rfl
  | cons part more step =>
    cases more with
    | nil => rfl
    | cons next others => simpa using step

/-- The tokens of a line of single tokens with a space between neighbours. -/
theorem content_spaced (words : List String) (single : ∀ word ∈ words, IsSingle word) :
    (tokenize (" ".intercalate words)).map Token.content =
      ((words.flatMap tokenize).map Token.content).intersperse (.whitespace, " ") := by
  have chars : (words.flatMap fun word => scan word.toList).map Lexeme.chars = words.map String.toList := by
    rw [List.map_flatMap, List.map_eq_flatMap]
    refine List.flatMap_congr fun word member => ?_
    obtain ⟨kind, isWord, -⟩ := (single word member).isWord
    rw [show scan word.toList = _ from isWord]
    rfl
  have contents : (words.flatMap tokenize).map Token.content =
      (words.flatMap fun word => scan word.toList).map fun lexeme => (lexeme.kind, String.ofList lexeme.chars) := by
    simp only [List.map_flatMap, Token.content_tokenize]
  have lexemes := scan_spaced (words.flatMap fun word => scan word.toList) (by
    intro lexeme member
    obtain ⟨word, among, inside⟩ := List.mem_flatMap.mp member
    obtain ⟨kind, isWord, ends⟩ := (single word among).isWord
    obtain rfl := List.mem_singleton.mp (isWord ▸ inside)
    exact ⟨isWord, ends⟩)
  rw [Token.content_tokenize, String.toList_intercalate, ← chars, contents]
  exact (congrArg _ lexemes).trans (map_intersperse _ _ _)

/-- **Single tokens with spaces between them are read back**: whatever texts are single tokens on their own, the line of them
with a space between neighbours has just these tokens and the spaces. So an operator between two operands makes a line of five
tokens. -/
theorem tokenize_spaced :
    (∀ words : List String, (∀ word ∈ words, IsSingle word) →
      (tokenize (" ".intercalate words)).map Token.content =
        ((words.flatMap tokenize).map Token.content).intersperse (.whitespace, " ")) ∧
    ∀ (operator : BinaryOperator) (left right : String), IsSingle left → IsSingle right →
      (tokenize (left ++ " " ++ operator.symbol ++ " " ++ right)).map Token.content =
        (tokenize left).map Token.content ++ [(.whitespace, " "), (.operator operator.sign, operator.symbol), (.whitespace, " ")] ++
          (tokenize right).map Token.content ∧
      (tokenize (left ++ " " ++ operator.symbol ++ " " ++ right)).length = 5 := by
  refine ⟨content_spaced, fun operator left right leftSingle rightSingle => ?_⟩
  have symbol : tokenize operator.symbol = [⟨.operator operator.sign, operator.symbol, 1, 1⟩] := by
    cases operator <;> decide
  have line : left ++ " " ++ operator.symbol ++ " " ++ right = " ".intercalate [left, operator.symbol, right] := by
    simp [← String.toList_inj]
  have contents := content_spaced [left, operator.symbol, right] (by
    simp only [List.forall_mem_cons]
    exact ⟨leftSingle, ⟨_, symbol, rfl⟩, rightSingle, by simp⟩)
  obtain ⟨first, leftWhole, -⟩ := leftSingle
  obtain ⟨second, rightWhole, -⟩ := rightSingle
  simp only [List.flatMap_cons, leftWhole, symbol, rightWhole] at contents
  rw [line, leftWhole, rightWhole, contents]
  exact ⟨rfl, by simpa using congrArg List.length contents⟩

/-- Single tokens of many kinds: names, a list that holds a bracket in quotes, a quote that holds an escaped quote, a block
comment, a format string with a space in it, and signs that start one another. -/
def motley : List String :=
  ["xs", "|>", "|", "[ 1, \"]\" ]", "::", ":", "\"\\\" \"", "\x7b- a -\x7d", "<|", "<", "\x60a b\x60", "-", "1.5", "if"]

theorem isSingle_motley : ∀ word ∈ motley, IsSingle word := by
  decide

theorem tokenize_spaced_motley :
    (∀ word ∈ motley, IsSingle word) ∧ (tokenize (" ".intercalate motley)).length = 27 ∧
      ((tokenize (" ".intercalate motley)).map Token.content)[6]? = some (.literal, "[ 1, \"]\" ]") ∧
      (tokenize ("-" ++ " " ++ BinaryOperator.subtract.symbol ++ " " ++ "-")).length = 5 := by
  have contents := tokenize_spaced.1 motley isSingle_motley
  have minus : IsSingle "-" := by decide
  refine ⟨isSingle_motley, ?_, ?_, (tokenize_spaced.2 .subtract "-" "-" minus minus).2⟩
  · rw [← List.length_map Token.content, contents]
    rfl
  · rw [contents]
    rfl

end DerwLang
