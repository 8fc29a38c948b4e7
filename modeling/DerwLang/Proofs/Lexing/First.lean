/-
**What the first character makes of a text.**

The first character decides what kind of token starts a text and how far the token reaches. There are five cases
(`first`): blanks, numbers, names, what has an opening sign (quoted texts, lists and comments), and signs, which look at
one further character at most (`classify_sign`). Two facts hold in all of them:

* `classify_take`: cut off where it ends, the token is the same;
* `classify_take_le`: cut off earlier, a token of the same first character reaches no further.
-/

import DerwLang.Proofs.Lexing.Reach

namespace DerwLang

/-- The kinds of words that are written in more than one way. -/
def isOpenKind : Token.Kind → Bool
  | .identifier | .literal | .string | .formatString | .keyword _ => true
  | _ => false

/-- The kinds of tokens that keep their text. -/
def isTextKind (kind : Token.Kind) : Bool :=
  isOpenKind kind || kind.isComment

namespace Lexeme

variable {c : Char} {rest : List Char}

/-! ## Cases -/

theorem classify_blank (blank : Text.isBlank c = true) (rest : List Char) :
    classify c rest = (.whitespace, (rest.takeWhile Text.isBlank).length) := by
  unfold classify
  rw [if_pos blank]

theorem classify_number (visible : Text.isBlank c = false) (digit : c.isDigit = true) (rest : List Char) :
    classify c rest = (.literal, numberLength rest) := by
  unfold classify
  rw [if_neg (by simp [visible]), if_pos digit]

theorem classify_name (visible : Text.isBlank c = false) (noDigit : c.isDigit = false) (starts : startsName c = true)
    (rest : List Char) :
    classify c rest = (wordKind (String.ofList (c :: rest.take (nameLength rest))), nameLength rest) := by
  unfold classify
  rw [if_neg (by simp [visible]), if_neg (by simp [noDigit]), if_pos starts]

theorem classify_quote (rest : List Char) :
    classify '"' rest =
      ((if (quotedLength '"' rest).1 then .string else .unknown), (quotedLength '"' rest).2) := by
  unfold classify
  rw [if_neg (by decide), if_neg (by decide), if_neg (by decide)]
  cases found : quotedLength '"' rest with
  | mk closed length => cases closed <;> simp [found]

theorem classify_backquote (rest : List Char) :
    classify '\x60' rest =
      ((if (quotedLength '\x60' rest).1 then .formatString else .unknown), (quotedLength '\x60' rest).2) := by
  unfold classify
  rw [if_neg (by decide), if_neg (by decide), if_neg (by decide)]
  cases found : quotedLength '\x60' rest with
  | mk closed length => cases closed <;> simp [found]

theorem classify_list (rest : List Char) :
    classify '[' rest = ((listLength 0 none rest).map fun length => (.literal, length)).getD (.unknown, 0) := by
  unfold classify
  rw [if_neg (by decide), if_neg (by decide), if_neg (by decide)]
  cases found : listLength 0 none rest <;> simp [found]

theorem classify_comment (rest : List Char) :
    classify '-' ('-' :: rest) = (.comment, (rest.takeWhile (· != '\n')).length + 1) := by
  unfold classify
  rw [if_neg (by decide), if_neg (by decide), if_neg (by decide)]
  rfl

theorem classify_multilineComment (rest : List Char) :
    classify '\x7b' ('-' :: rest) = ((blockCommentLength rest).map fun length => (.multilineComment, length + 1)).getD
      (.unknown, rest.length + 1) := by
  unfold classify
  rw [if_neg (by decide), if_neg (by decide), if_neg (by decide)]
  cases found : blockCommentLength rest <;> simp [found]

/-- A quote, a bracket or a comment opens. -/
inductive Opening : Char → List Char → Prop
  | quote (rest : List Char) : Opening '"' rest
  | backquote (rest : List Char) : Opening '\x60' rest
  | list (rest : List Char) : Opening '[' rest
  | comment (rest : List Char) : Opening '-' ('-' :: rest)
  | multilineComment (rest : List Char) : Opening '\x7b' ('-' :: rest)

theorem Opening.of_take {count : Nat} (opening : Opening c (rest.take count)) : Opening c rest := by
  generalize cut : rest.take count = short at opening
  cases opening with
  | quote => exact .quote rest
  | backquote => exact .backquote rest
  | list => exact .list rest
  | comment =>
    rw [← List.take_append_drop count rest, cut]
    exact .comment _
  | multilineComment =>
    rw [← List.take_append_drop count rest, cut]
    exact .multilineComment _

/-- The sign that a character starts before another one, and the number of further characters in it. -/
def sign : Char → Option Char → Token.Kind × Nat
  | '-', some '>' => (.arrow, 1)
  | '-', _ => (.operator .minus, 0)
  | '\x7b', _ => (.openCurly, 0)
  | '\x7d', _ => (.closeCurly, 0)
  | '(', _ => (.openBracket, 0)
  | ')', _ => (.closeBracket, 0)
  | ',', _ => (.comma, 0)
  | '\\', _ => (.backslash, 0)
  | ':', some ':' => (.operator .cons, 1)
  | ':', _ => (.colon, 0)
  | '=', some '=' => (.operator .equal, 1)
  | '=', _ => (.assign, 0)
  | '!', some '=' => (.operator .notEqual, 1)
  | '<', some '=' => (.operator .lessEqual, 1)
  | '<', some '|' => (.operator .pipeLeft, 1)
  | '<', _ => (.operator .less, 0)
  | '>', some '=' => (.operator .greaterEqual, 1)
  | '>', _ => (.operator .greater, 0)
  | '|', some '>' => (.operator .pipeRight, 1)
  | '|', some '|' => (.operator .or, 1)
  | '|', _ => (.pipe, 0)
  | '&', some '&' => (.operator .and, 1)
  | '.', some '.' => (.operator .range, 1)
  | '+', _ => (.operator .plus, 0)
  | '*', _ => (.operator .star, 0)
  | '/', _ => (.operator .slash, 0)
  | _, _ => (.unknown, 0)

theorem classify_sign (visible : Text.isBlank c = false) (noDigit : c.isDigit = false) (noName : startsName c = false)
    (noOpening : ¬ Opening c rest) : classify c rest = sign c rest.head? := by
  unfold classify
  rw [if_neg (by simp [visible]), if_neg (by simp [noDigit]), if_neg (by simp [noName])]
  split
  all_goals first
    | rfl
    | exact absurd (by constructor) noOpening
    | cases rest <;> simp_all [sign]

/-- What a first character can be. -/
inductive First (c : Char) (rest : List Char) : Prop
  | blank (blank : Text.isBlank c = true)
  | number (visible : Text.isBlank c = false) (digit : c.isDigit = true)
  | name (visible : Text.isBlank c = false) (noDigit : c.isDigit = false) (starts : startsName c = true)
  | opening (opening : Opening c rest)
  | sign (visible : Text.isBlank c = false) (noDigit : c.isDigit = false) (noName : startsName c = false)
    (noOpening : ¬ Opening c rest)

theorem first (c : Char) (rest : List Char) : First c rest := by
  cases blank : Text.isBlank c with
  | true => exact .blank blank
  | false =>
    cases digit : c.isDigit with
    | true => exact .number blank digit
    | false =>
      cases starts : startsName c with
      | true => exact .name blank digit starts
      | false =>
        by_cases opening : Opening c rest
        · exact .opening opening
        · exact .sign blank digit starts opening

/-! ## Signs -/

/-- A sign keeps no text, and it is no blank. -/
theorem kind_sign (c : Char) (next : Option Char) :
    isTextKind (sign c next).1 = false ∧ (sign c next).1 ≠ .whitespace := by
  fun_cases sign c next <;> exact ⟨rfl, by simp⟩

/-- A sign without a further character is the same at the end of a text. -/
theorem sign_none (alone : (sign c rest.head?).2 = 0) : sign c none = sign c rest.head? := by
  generalize rest.head? = next at alone ⊢
  fun_cases sign c next <;> simp_all [sign]

theorem length_sign_le (c : Char) (next : Option Char) : (sign c next).2 ≤ 1 := by
  fun_cases sign c next <;> simp

theorem length_sign_none (c : Char) : (sign c none).2 = 0 := by
  generalize atEnd : (none : Option Char) = next
  fun_cases sign c next <;> simp_all

/-! ## Kinds -/

/-- What can start a word that is written in more than one way: a digit, a name, a quote or a list. -/
theorem start_of_isOpenKind (kind : isOpenKind (classify c rest).1 = true) :
    c.isDigit = true ∨ startsName c = true ∨ c = '"' ∨ c = '\x60' ∨ c = '[' := by
  cases first c rest with
  | blank blank => simp [classify_blank blank, isOpenKind] at kind
  | number _ digit => exact .inl digit
  | name _ _ starts => exact .inr (.inl starts)
  | opening opening =>
    cases opening with
    | quote | backquote | list => simp
    | comment => simp [classify_comment, isOpenKind] at kind
    | multilineComment more =>
      rw [classify_multilineComment] at kind
      cases found : blockCommentLength more <;> simp [found, isOpenKind] at kind
  | sign visible noDigit noName noOpening =>
    have keepsNone := (kind_sign c rest.head?).1
    rw [classify_sign visible noDigit noName noOpening] at kind
    simp [isTextKind, kind] at keepsNone

/-- Words of such a kind start with no blank. -/
theorem not_blank_of_isOpenKind (kind : isOpenKind (classify c rest).1 = true) : Text.isBlank c = false := by
  cases blank : Text.isBlank c with
  | false => rfl
  | true => simp [classify_blank blank, isOpenKind] at kind

/-- A name is no comment. -/
theorem isComment_wordKind (word : String) : (wordKind word).isComment = false := by
  rw [wordKind]
  split
  · rfl
  · split <;> rfl

/-- What starts a comment: two minus signs, or a curly bracket and a minus sign. -/
theorem start_of_isComment (isComment : (classify c rest).1.isComment = true) :
    ∃ more, (c = '-' ∨ c = '\x7b') ∧ rest = '-' :: more := by
  cases first c rest with
  | blank blank => simp [classify_blank blank, Token.Kind.isComment] at isComment
  | number visible digit => simp [classify_number visible digit, Token.Kind.isComment] at isComment
  | name visible noDigit starts => simp [classify_name visible noDigit starts, isComment_wordKind] at isComment
  | opening opening =>
    cases opening with
    | quote more =>
      rw [classify_quote] at isComment
      cases found : (quotedLength '"' rest).1 <;> simp [found, Token.Kind.isComment] at isComment
    | backquote more =>
      rw [classify_backquote] at isComment
      cases found : (quotedLength '\x60' rest).1 <;> simp [found, Token.Kind.isComment] at isComment
    | list more =>
      rw [classify_list] at isComment
      cases found : listLength 0 none rest <;> simp [found, Token.Kind.isComment] at isComment
    | comment more => exact ⟨more, .inl rfl, rfl⟩
    | multilineComment more => exact ⟨more, .inr rfl, rfl⟩
  | sign visible noDigit noName noOpening =>
    have keepsNone := (kind_sign c rest.head?).1
    rw [classify_sign visible noDigit noName noOpening] at isComment
    simp [isTextKind, isComment] at keepsNone

/-! ## Cutting off -/

/-- **A token is cut off by itself.** -/
theorem classify_take (c : Char) (rest : List Char) : classify c (rest.take (classify c rest).2) = classify c rest := by
  cases first c rest with
  | blank blank =>
    simp only [classify_blank blank, ← List.take_takeWhile, List.length_take, Nat.min_self]
  | number visible digit => simp only [classify_number visible digit, numberLength_take]
  | name visible noDigit starts =>
    simp only [classify_name visible noDigit starts, nameLength_take, List.take_take, Nat.min_self]
  | opening opening =>
    cases opening with
    | quote => simp only [classify_quote, quotedLength_take]
    | backquote => simp only [classify_backquote, quotedLength_take]
    | list =>
      cases found : listLength 0 none rest with
      | none => simp [classify_list, found, listLength]
      | some length => simp [classify_list, found, listLength_take found]
    | comment more =>
      simp only [classify_comment, List.take_succ_cons, ← List.take_takeWhile, List.length_take, Nat.min_self]
    | multilineComment more =>
      cases found : blockCommentLength more with
      | none => simp [classify_multilineComment, found]
      | some length => simp [classify_multilineComment, found, blockCommentLength_take found]
  | sign visible noDigit noName noOpening =>
    rw [classify_sign visible noDigit noName fun opening => noOpening opening.of_take,
      classify_sign visible noDigit noName noOpening, List.head?_take]
    split
    · rename_i alone
      exact sign_none alone
    · rfl

/-- **Cut off earlier, a token of the same first character reaches no further.** -/
theorem classify_take_le (c : Char) (rest : List Char) (count : Nat) :
    (classify c (rest.take count)).2 ≤ (classify c rest).2 := by
  cases first c rest with
  | blank blank =>
    simp only [classify_blank blank, ← List.take_takeWhile]
    exact List.length_take_le' _ _
  | number visible digit =>
    simp only [classify_number visible digit]
    exact numberLength_take_le rest count
  | name visible noDigit starts =>
    simp only [classify_name visible noDigit starts]
    exact nameLength_take_le rest count
  | opening opening =>
    cases opening with
    | quote =>
      simp only [classify_quote]
      exact quotedLength_take_le '"' rest count
    | backquote =>
      simp only [classify_backquote]
      exact quotedLength_take_le '\x60' rest count
    | list =>
      rw [classify_list, classify_list]
      cases cut : listLength 0 none (rest.take count) with
      | none => exact Nat.zero_le _
      | some length => rw [listLength_of_take cut]
    | comment more =>
      cases count with
      | zero => exact Nat.zero_le _
      | succ count =>
        simp only [List.take_succ_cons, classify_comment, ← List.take_takeWhile]
        exact Nat.succ_le_succ (List.length_take_le' _ _)
    | multilineComment more =>
      cases count with
      | zero => exact Nat.zero_le _
      | succ count =>
        rw [List.take_succ_cons, classify_multilineComment, classify_multilineComment]
        cases cut : blockCommentLength (more.take count) with
        | some length =>
          rw [blockCommentLength_of_take cut]
          exact Nat.le_refl _
        | none =>
          cases found : blockCommentLength more with
          | none => exact Nat.succ_le_succ (List.length_take_le' _ _)
          | some length =>
            refine Nat.succ_le_succ ((List.length_take_le _ _).trans (Nat.le_of_lt ?_))
            exact lt_of_blockCommentLength_take found cut
  | sign visible noDigit noName noOpening =>
    rw [classify_sign visible noDigit noName fun opening => noOpening opening.of_take,
      classify_sign visible noDigit noName noOpening, List.head?_take]
    split
    · rw [length_sign_none]
      exact Nat.zero_le _
    · exact Nat.le_refl _

end Lexeme

/-! ## Words -/

open Lexeme

/-- The characters are one lexeme of the kind. -/
def IsWord (kind : Token.Kind) (own : List Char) : Prop :=
  scan own = [⟨kind, own⟩]

instance (kind : Token.Kind) (own : List Char) : Decidable (IsWord kind own) :=
  inferInstanceAs (Decidable (scan own = [⟨kind, own⟩]))

theorem scan_eq_nil {own : List Char} : scan own = [] ↔ own = [] := by
  cases own with
  | nil => simp [scan, scanAfter]
  | cons c rest => simp [scan_cons]

/-- A word is its first character and what that takes of the rest, which is all. -/
theorem isWord_iff {kind : Token.Kind} {own : List Char} :
    IsWord kind own ↔
      ∃ c rest, own = c :: rest ∧ (classify c rest).1 = kind ∧ rest.length ≤ (classify c rest).2 := by
  cases own with
  | nil => simp [IsWord, scan, scanAfter]
  | cons c rest =>
    rw [IsWord, scan_cons]
    constructor
    · intro same
      simp only [List.cons.injEq, Lexeme.mk.injEq] at same
      refine ⟨c, rest, rfl, same.1.1, ?_⟩
      simpa [scan_eq_nil] using same.2
    · rintro ⟨d, others, same, rfl, all⟩
      simp only [List.cons.injEq] at same
      obtain ⟨rfl, rfl⟩ := same
      simp [List.take_of_length_le all, List.drop_of_length_le all, scan, scanAfter]

/-- A lexeme is a character and what that takes of the rest. -/
theorem classify_of_mem_scanAfter {skipped : Nat} {own : List Char} {lexeme : Lexeme} (member : lexeme ∈ scanAfter skipped own) :
    ∃ c rest, lexeme = ⟨(classify c rest).1, c :: rest.take (classify c rest).2⟩ := by
  induction own generalizing skipped with
  | nil => simp [scanAfter] at member
  | cons c rest step =>
    cases skipped with
    | succ skipped => exact step member
    | zero =>
      rcases List.mem_cons.mp member with rfl | later
      · exact ⟨c, rest, rfl⟩
      · exact step later

/-- **The lexemes of a text are words.** -/
theorem isWord_of_mem_scan {own : List Char} {lexeme : Lexeme} (member : lexeme ∈ scan own) :
    IsWord lexeme.kind lexeme.chars := by
  obtain ⟨c, rest, rfl⟩ := classify_of_mem_scanAfter member
  have same := classify_take c rest
  exact isWord_iff.mpr ⟨c, _, rfl, by rw [same], by rw [same]; exact List.length_take_le _ _⟩

end DerwLang
