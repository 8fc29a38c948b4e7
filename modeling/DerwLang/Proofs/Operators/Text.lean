/-
**Rows of operators in text.**

The text of an expression in some language is read mark by mark: blanks are skipped, names and numbers are operands, and a
language has its own signs (`Signs`). `Signs.marks?` gives the row of a text, if it is one. Texts are put together piece by
piece: a piece has its marks wherever nothing goes on with it (`Signs.Writes`). Main facts:

* `Writes.word`: names, numbers and booleans are operands;
* `Writes.operation`, `Writes.parenthesised`: operators with blanks around, and brackets.
-/

import DerwLang.Proofs.Layout.Sound
import DerwLang.Proofs.Operators.Grouping

namespace DerwLang.Operators

open Lexeme

/-- Something that ends an operand stands before. -/
def Mark.completes : Mark → Bool
  | .operand _ | .closing => true
  | _ => false

/-- The signs of a language: the mark of the sign that starts with a character, and how many characters it takes of the rest.
The first argument says whether an operand stands before the sign. -/
abbrev Signs := Bool → Char → List Char → Option (Mark × Nat)

/-- The operand of a word. -/
def word (chars : List Char) : Mark :=
  .operand (.value (String.ofList chars))

namespace Signs

/-- The mark that starts with a character that is no blank, and how many characters it takes of the rest. -/
def markAt? (signs : Signs) (complete : Bool) (c : Char) (rest : List Char) : Option (Mark × Nat) :=
  if c.isDigit then some (word (c :: rest.take (numberLength rest)), numberLength rest)
  else if startsName c then some (word (c :: rest.take (nameLength rest)), nameLength rest)
  else signs complete c rest

/-- The marks of a text, the first `skipped` characters of which belong to a mark already found. -/
def marksAfter? (signs : Signs) : Nat → Bool → List Char → Option (List Mark)
  | _, _, [] => some []
  | skipped + 1, complete, _ :: rest => marksAfter? signs skipped complete rest
  | 0, complete, c :: rest =>
    if Text.isBlank c then marksAfter? signs 0 complete rest
    else
      match signs.markAt? complete c rest with
      | none => none
      | some (mark, length) => (marksAfter? signs length mark.completes rest).map (mark :: ·)

/-- The row of a text. -/
def marks? (signs : Signs) (text : String) : Option (List Mark) :=
  signs.marksAfter? 0 false text.toList

/-- The text is read as an expression. -/
def Reads (signs : Signs) (fixity : Fixity) (text : String) (tree : Expression) : Prop :=
  ∃ marks outermost, signs.marks? text = some marks ∧ fixity.Reads outermost marks tree

variable {signs : Signs}

theorem marksAfter?_skip (skipped : Nat) (complete : Bool) (chars : List Char) :
    signs.marksAfter? skipped complete chars = signs.marksAfter? 0 complete (chars.drop skipped) := by
  induction chars generalizing skipped with
  | nil => cases skipped <;> simp [marksAfter?]
  | cons c rest step =>
    cases skipped with
    | zero => rfl
    | succ skipped => rw [marksAfter?, step, List.drop_succ_cons]

theorem marksAfter?_blank {c : Char} (blank : Text.isBlank c = true) (complete : Bool) (rest : List Char) :
    signs.marksAfter? 0 complete (c :: rest) = signs.marksAfter? 0 complete rest := by
  rw [marksAfter?, if_pos blank]

/-- The marks of a text whose first mark takes some characters. -/
theorem marksAfter?_mark {c : Char} {own rest : List Char} {mark : Mark} {complete : Bool}
    (visible : Text.isBlank c = false) (found : signs.markAt? complete c (own ++ rest) = some (mark, own.length)) :
    signs.marksAfter? 0 complete (c :: own ++ rest) = (signs.marksAfter? 0 mark.completes rest).map (mark :: ·) := by
  rw [List.cons_append, marksAfter?, if_neg (by simp [visible])]
  simp [found, marksAfter?_skip own.length]

/-- The marks of a text whose first mark is a single character. -/
theorem marksAfter?_single {c : Char} {rest : List Char} {mark : Mark} {complete : Bool}
    (visible : Text.isBlank c = false) (found : signs.markAt? complete c rest = some (mark, 0)) :
    signs.marksAfter? 0 complete (c :: rest) = (signs.marksAfter? 0 mark.completes rest).map (mark :: ·) := by
  rw [marksAfter?, if_neg (by simp [visible])]
  simp [found]

/-! ## Pieces of text -/

/-- No name and no number goes on with what follows. -/
def Ends (rest : List Char) : Prop :=
  rest = [] ∨ ∃ more, rest = ' ' :: more ∨ rest = ')' :: more

theorem ends_nil : Ends [] := .inl rfl

theorem ends_blank (more : List Char) : Ends (' ' :: more) := .inr ⟨more, .inl rfl⟩

theorem ends_close (more : List Char) : Ends (')' :: more) := .inr ⟨more, .inr rfl⟩

theorem Ends.endsWord {rest : List Char} (ends : Ends rest) : endsWord rest = true := by
  rcases ends with rfl | ⟨more, rfl | rfl⟩ <;> simp [DerwLang.endsWord] <;> decide

/-- The text is a name, a number or a boolean. -/
def IsOperand (text : String) : Prop :=
  Sound.Name text ∨ Sound.Literal text

/-- A name, a number or a boolean starts with a digit or as a name does, and takes all of its characters. -/
theorem IsOperand.start {text : String} (isOperand : IsOperand text) :
    ∃ c own, text.toList = c :: own ∧ Text.isBlank c = false ∧
      (c.isDigit = true ∧ own.length ≤ numberLength own ∨
        c.isDigit = false ∧ startsName c = true ∧ own.length ≤ nameLength own) := by
  have isWord : ∃ kind, (kind = .identifier ∨ kind = .literal) ∧ IsWord kind text.toList ∧ text.toList.head? ≠ some '[' := by
    rcases isOperand with name | ⟨literal, noList⟩
    · refine ⟨_, .inl rfl, name, fun list => ?_⟩
      obtain ⟨c, own, same, kind, -⟩ := isWord_iff.mp name
      rw [same, List.head?_cons, Option.some_inj] at list
      rw [list, classify_list] at kind
      cases found : listLength 0 none own <;> simp [found] at kind
    · exact ⟨_, .inr rfl, literal, noList⟩
  obtain ⟨kind, isKind, isWord, noList⟩ := isWord
  obtain ⟨c, own, same, kindOf, all⟩ := isWord_iff.mp isWord
  have isOpen : isOpenKind (classify c own).1 = true := by
    rw [kindOf]
    rcases isKind with rfl | rfl <;> rfl
  have visible := not_blank_of_isOpenKind isOpen
  refine ⟨c, own, same, visible, ?_⟩
  cases digit : c.isDigit with
  | true =>
    rw [classify_number visible digit] at all
    exact .inl ⟨rfl, all⟩
  | false =>
    refine .inr ⟨rfl, ?_⟩
    rcases start_of_isOpenKind isOpen with isDigit | starts | rfl | rfl | rfl
    · simp [digit] at isDigit
    · rw [classify_name visible digit starts] at all
      exact ⟨starts, all⟩
    · rw [classify_quote] at kindOf
      rcases isKind with rfl | rfl <;> split at kindOf <;> cases kindOf
    · rw [classify_backquote] at kindOf
      rcases isKind with rfl | rfl <;> split at kindOf <;> cases kindOf
    · simp [same] at noList

/-- A word is one operand. -/
theorem marksAfter?_word {text : String} (isOperand : IsOperand text) {rest : List Char} (ends : endsWord rest = true)
    (complete : Bool) :
    signs.marksAfter? 0 complete (text.toList ++ rest) =
      (signs.marksAfter? 0 true rest).map (.operand (.value text) :: ·) := by
  obtain ⟨c, own, same, visible, shape⟩ := isOperand.start
  have whole : word (c :: own) = .operand (.value text) := by rw [word, ← same, String.ofList_toList]
  rw [same, ← whole]
  refine marksAfter?_mark visible ?_
  rcases shape with ⟨digit, all⟩ | ⟨noDigit, starts, all⟩
  · simp [markAt?, digit, numberLength_append all ends]
  · simp [markAt?, noDigit, starts, nameLength_append all ends]

/-- Where an operand is looked for, the text has the marks, whatever follows that does not go on with a word. -/
def Writes (signs : Signs) (text : String) (marks : List Mark) : Prop :=
  ∀ rest, Ends rest → signs.marksAfter? 0 false (text.toList ++ rest) =
    (signs.marksAfter? 0 true rest).map (marks ++ ·)

/-- The sign between blanks is the mark, where something ends an operand before it. -/
def Separates (signs : Signs) (sign : String) (mark : Mark) : Prop :=
  mark.completes = false ∧
    ∀ rest, signs.marksAfter? 0 true (sign.toList ++ ' ' :: rest) = (signs.marksAfter? 0 false rest).map (mark :: ·)

theorem separates_of {sign : String} {c : Char} {own : List Char} {mark : Mark} (same : sign.toList = c :: own)
    (visible : Text.isBlank c = false) (incomplete : mark.completes = false)
    (found : ∀ rest, signs.markAt? true c (own ++ ' ' :: rest) = some (mark, own.length)) :
    signs.Separates sign mark := by
  refine ⟨incomplete, fun rest => ?_⟩
  rw [same, marksAfter?_mark visible (found rest), incomplete, marksAfter?_blank (by decide)]

/-- The language has round brackets. -/
structure Brackets (signs : Signs) : Prop where
  opening : ∀ rest, signs.marksAfter? 0 false ('(' :: rest) = (signs.marksAfter? 0 false rest).map (.opening :: ·)
  closing : ∀ rest, signs.marksAfter? 0 true (')' :: rest) = (signs.marksAfter? 0 true rest).map (.closing :: ·)

namespace Writes

theorem marks?_eq {text : String} {marks : List Mark} (writes : signs.Writes text marks) :
    signs.marks? text = some marks := by
  have whole := writes [] ends_nil
  rw [List.append_nil] at whole
  rw [marks?, whole]
  simp [marksAfter?]

/-- A text is read as its row is. -/
theorem reads_iff {text : String} {marks : List Mark} (writes : signs.Writes text marks) {fixity : Fixity}
    {tree : Expression} : signs.Reads fixity text tree ↔ ∃ outermost, fixity.Reads outermost marks tree := by
  simp [Reads, writes.marks?_eq]

/-- **Names, numbers and booleans are operands.** -/
theorem word {text : String} (isOperand : IsOperand text) : signs.Writes text [.operand (.value text)] :=
  fun _ ends => marksAfter?_word isOperand ends.endsWord false

/-- **Two operands with an operator between.** -/
theorem operation {left right sign : String} {before after : List Mark} {mark : Mark} (one : signs.Writes left before)
    (two : signs.Writes right after) (separates : signs.Separates sign mark) :
    signs.Writes (left ++ " " ++ sign ++ " " ++ right) (before ++ mark :: after) := by
  intro rest ends
  have whole : (left ++ " " ++ sign ++ " " ++ right).toList ++ rest =
      left.toList ++ ' ' :: (sign.toList ++ ' ' :: (right.toList ++ rest)) := by
    simp
  rw [whole, one _ (ends_blank _), marksAfter?_blank (by decide), separates.2, two rest ends]
  cases signs.marksAfter? 0 true rest <;> simp

/-- **Brackets around an expression.** -/
theorem parenthesised {text : String} {marks : List Mark} (writes : signs.Writes text marks) (brackets : signs.Brackets) :
    signs.Writes (Text.parenthesised text) (.opening :: (marks ++ [.closing])) := by
  intro rest _
  have whole : (Text.parenthesised text).toList ++ rest = '(' :: (text.toList ++ ')' :: rest) := by
    simp [Text.parenthesised]
  rw [whole, brackets.opening, writes _ (ends_close _), brackets.closing]
  cases signs.marksAfter? 0 true rest <;> simp

end Writes

end Signs

end DerwLang.Operators
