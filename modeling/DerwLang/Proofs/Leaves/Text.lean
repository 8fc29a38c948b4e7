/-
**The leaves of a text.**

The leaves of a text are the lexemes that the grammar sees, without round brackets, and with every list taken apart into its
square brackets and the leaves between them. Main facts:

* `leaves_eq`: the leaves of a text are those of its lexemes, one after the other;
* `leavesOf_significant`: the tokens that the grammar sees of a text have the leaves of the text;
* `body_of_kind`: a token of a kind that is spelled in one way is spelled so.
-/

import DerwLang.Grammar.Pattern
import DerwLang.Proofs.Accepted.Part

namespace DerwLang.Leaves

open Lexeme

/-! ## Lists taken apart -/

/-- Blanks, comments and round brackets, which say nothing about what is read. -/
def isUnseen (kind : Token.Kind) : Bool :=
  kind.isTrivia || kind == .openBracket || kind == .closeBracket

/-- The lexeme is a whole list between square brackets. -/
def isList (lexeme : Lexeme) : Bool :=
  lexeme.kind == .literal && ['['].isPrefixOf lexeme.chars

/-- What stands between the ends of a lexeme. -/
def interior (lexeme : Lexeme) : List Char :=
  (lexeme.chars.drop 1).dropLast

theorem length_interior_lt {lexeme : Lexeme} {chars : List Char} (member : lexeme ∈ scan chars) :
    (interior lexeme).length < chars.length := by
  have le : lexeme.chars.length ≤ ((scan chars).map Lexeme.chars).flatten.length :=
    (List.infix_of_mem_flatten (List.mem_map_of_mem member)).length_le
  rw [← List.flatMap_def, chars_scan] at le
  have positive := List.length_pos_iff.mpr (chars_ne_nil 0 chars lexeme member)
  rw [interior, List.length_dropLast, List.length_drop]
  omega

/-- The leaves of a text. -/
def leaves (chars : List Char) : List Lexeme :=
  (scan chars).attach.flatMap fun ⟨lexeme, _⟩ =>
    if isUnseen lexeme.kind then []
    else if isList lexeme then scan ['['] ++ (leaves (interior lexeme) ++ scan [']'])
    else [lexeme]
termination_by chars.length
decreasing_by exact length_interior_lt ‹_›

/-- The leaves of a single lexeme. -/
def leavesOfLexeme (lexeme : Lexeme) : List Lexeme :=
  if isUnseen lexeme.kind then []
  else if isList lexeme then scan ['['] ++ (leaves (interior lexeme) ++ scan [']'])
  else [lexeme]

/-- **The leaves of a text are those of its lexemes.** -/
theorem leaves_eq (chars : List Char) : leaves chars = (scan chars).flatMap leavesOfLexeme := by
  rw [leaves, List.flatMap_subtype (g := leavesOfLexeme) fun _ _ => rfl, List.unattach_attach]

/-- A word has the leaves of its one lexeme. -/
theorem leaves_of_isWord {kind : Token.Kind} {own : List Char} (isWord : IsWord kind own) :
    leaves own = leavesOfLexeme ⟨kind, own⟩ := by
  rw [leaves_eq, isWord, List.flatMap_cons, List.flatMap_nil, List.append_nil]

@[simp]
theorem leaves_nil : leaves [] = [] := by
  rw [leaves_eq]
  rfl

/-- The leaves of a text are those of the texts of its lexemes. -/
theorem leaves_scan (chars : List Char) : leaves chars = (scan chars).flatMap fun lexeme => leaves lexeme.chars := by
  rw [leaves_eq]
  exact List.flatMap_congr fun lexeme member => (leaves_of_isWord (isWord_of_mem_scan member)).symm

/-! ## Tokens -/

/-- The leaves of the texts of tokens. -/
def leavesOf (tokens : List Token) : List Lexeme :=
  tokens.flatMap fun token => leaves token.body.toList

theorem leavesOf_append (first second : List Token) : leavesOf (first ++ second) = leavesOf first ++ leavesOf second :=
  List.flatMap_append

theorem leavesOf_cons (token : Token) (rest : List Token) :
    leavesOf (token :: rest) = leaves token.body.toList ++ leavesOf rest :=
  List.flatMap_cons

@[simp]
theorem leavesOf_nil : leavesOf [] = [] := rfl

/-- The tokens are words that the grammar sees. -/
def Worded (tokens : List Token) : Prop :=
  ∀ token ∈ tokens, IsWord token.kind token.body.toList ∧ token.isTrivia = false

theorem worded_cons {token : Token} {rest : List Token} :
    Worded (token :: rest) ↔ (IsWord token.kind token.body.toList ∧ token.isTrivia = false) ∧ Worded rest :=
  List.forall_mem_cons

theorem worded_append {first second : List Token} : Worded (first ++ second) ↔ Worded first ∧ Worded second :=
  List.forall_mem_append

theorem isWord_tokenizeAt {source : String} {line column : Nat} {token : Token}
    (member : token ∈ tokenizeAt source line column) : IsWord token.kind token.body.toList := by
  obtain ⟨lexeme, among, kind, body⟩ := Token.mem_place member
  rw [kind, body, String.toList_ofList]
  exact isWord_of_mem_scan among

/-- What the grammar sees of a text are words. -/
theorem worded_significant (source : String) (line column : Nat) :
    Worded (Token.significant (tokenizeAt source line column)) := by
  intro token member
  obtain ⟨among, seen⟩ := List.mem_filter.mp member
  exact ⟨isWord_tokenizeAt among, by simpa using seen⟩

theorem leavesOf_place (position : Position) (lexemes : List Lexeme) :
    leavesOf (Token.place position lexemes) = lexemes.flatMap fun lexeme => leaves lexeme.chars := by
  induction lexemes generalizing position with
  | nil => rfl
  | cons lexeme more step => rw [Token.place, leavesOf_cons, step, String.toList_ofList, List.flatMap_cons]

/-- What the grammar does not see has no leaves. -/
theorem leaves_of_isTrivia {token : Token} (isWord : IsWord token.kind token.body.toList)
    (trivia : token.isTrivia = true) : leaves token.body.toList = [] := by
  rw [leaves_of_isWord isWord, leavesOfLexeme, if_pos]
  have unseen : token.kind.isTrivia = true := trivia
  simp [isUnseen, unseen]

/-- **The tokens that the grammar sees have all leaves of the text.** -/
theorem leavesOf_significant (source : String) (line column : Nat) :
    leavesOf (Token.significant (tokenizeAt source line column)) = leaves source.toList := by
  have kept : ∀ tokens : List Token, (∀ token ∈ tokens, IsWord token.kind token.body.toList) →
      leavesOf (Token.significant tokens) = leavesOf tokens := by
    intro tokens
    induction tokens with
    | nil => exact fun _ => rfl
    | cons token rest step =>
      intro words
      rw [List.forall_mem_cons] at words
      rw [leavesOf_cons, ← step words.2, Token.significant, List.filter_cons]
      cases trivia : token.isTrivia with
      | true =>
        rw [leaves_of_isTrivia words.1 trivia]
        rfl
      | false => exact leavesOf_cons _ _
  rw [kept _ fun _ member => isWord_tokenizeAt member, tokenizeAt, leavesOf_place, leaves_scan]

/-! ## Kinds that are spelled in one way -/

/-- How a kind is spelled that is spelled in one way, for the kinds that stand in expressions. -/
def spelling : Token.Kind → String
  | .keyword word => word.spelling
  | .operator sign => sign.symbol
  | .arrow => "->"
  | .colon => ":"
  | .comma => ","
  | .backslash => "\\"
  | .openCurly => "\x7b"
  | .closeCurly => "\x7d"
  | _ => ""

theorem spelling_of_sign {c : Char} {rest : List Char} (all : rest.length ≤ (sign c rest.head?).2)
    (fixed : spelling (sign c rest.head?).1 ≠ "") : c :: rest = (spelling (sign c rest.head?).1).toList := by
  have short : rest = [] ∨ ∃ d, rest = [d] := by
    have le := Nat.le_trans all (length_sign_le c rest.head?)
    match rest, le with
    | [], _ => exact .inl rfl
    | [d], _ => exact .inr ⟨d, rfl⟩
  rcases short with rfl | ⟨d, rfl⟩
  · revert fixed
    generalize atEnd : ([] : List Char).head? = next
    fun_cases sign c next <;> simp_all [spelling, Sign.symbol]
  · revert all fixed
    generalize some_ : [d].head? = next
    fun_cases sign c next <;> simp_all [spelling, Sign.symbol]

theorem spelling_wordKind {word : String} (fixed : spelling (wordKind word) ≠ "") : spelling (wordKind word) = word := by
  rw [wordKind] at fixed ⊢
  cases found : Keyword.ofSpelling? word with
  | some keyword =>
    rw [Keyword.ofSpelling?] at found
    exact beq_iff_eq.mp (List.find?_some found :)
  | none =>
    simp only [found] at fixed
    split at fixed <;> exact absurd rfl fixed

/-- **A word of such a kind is spelled so.** -/
theorem chars_of_isWord {kind : Token.Kind} {own : List Char} (isWord : IsWord kind own) (fixed : spelling kind ≠ "") :
    own = (spelling kind).toList := by
  obtain ⟨c, rest, rfl, rfl, all⟩ := isWord_iff.mp isWord
  cases first c rest with
  | blank blank => simp [classify_blank blank, spelling] at fixed
  | number visible digit => simp [classify_number visible digit, spelling] at fixed
  | name visible noDigit starts =>
    rw [classify_name visible noDigit starts] at all fixed ⊢
    rw [spelling_wordKind fixed, String.toList_ofList, List.take_of_length_le all]
  | opening opening =>
    exfalso
    cases opening with
    | quote =>
      rw [classify_quote] at fixed
      cases closed : (quotedLength '"' rest).1 <;> simp [closed, spelling] at fixed
    | backquote =>
      rw [classify_backquote] at fixed
      cases closed : (quotedLength '\x60' rest).1 <;> simp [closed, spelling] at fixed
    | list =>
      rw [classify_list] at fixed
      cases closed : listLength 0 none rest <;> simp [closed, spelling] at fixed
    | comment more => simp [classify_comment, spelling] at fixed
    | multilineComment more =>
      rw [classify_multilineComment] at fixed
      cases closed : blockCommentLength more <;> simp [closed, spelling] at fixed
  | sign visible noDigit noName noOpening =>
    rw [classify_sign visible noDigit noName noOpening] at all fixed ⊢
    exact spelling_of_sign all fixed

/-- Blanks have no leaves. -/
theorem leaves_of_isBlankLine {text : String} (blank : Text.isBlankLine text = true) : leaves text.toList = [] := by
  cases chars : text.toList with
  | nil => exact leaves_nil
  | cons c rest =>
    rw [Text.isBlankLine, chars, List.all_cons, Bool.and_eq_true] at blank
    have all : rest.takeWhile Text.isBlank = rest := List.takeWhile_eq_self_iff.mpr (List.all_eq_true.mp blank.2)
    have isWord : IsWord .whitespace (c :: rest) := by
      refine isWord_iff.mpr ⟨c, rest, rfl, ?_, ?_⟩ <;> rw [classify_blank blank.1]
      rw [all]
    rw [leaves_of_isWord isWord]
    rfl

section Words

variable {token : Token} (isWord : IsWord token.kind token.body.toList)

include isWord

/-- A token of a kind that is spelled in one way is spelled so. -/
theorem body_of_kind {kind : Token.Kind} (same : token.kind = kind) (fixed : spelling kind ≠ "") :
    token.body = spelling kind := by
  rw [same] at isWord
  rw [← String.toList_inj, chars_of_isWord isWord fixed]

theorem leaves_of_isRound (round : token.kind = .openBracket ∨ token.kind = .closeBracket) :
    leaves token.body.toList = [] := by
  rw [leaves_of_isWord isWord, leavesOfLexeme, if_pos]
  rcases round with same | same <;> simp [isUnseen, same]

/-- A text between quotes is what stands between them, in quotes. -/
theorem quoted_unquote (isString : token.kind = .string) : Text.quoted (Grammar.unquote token.body) = token.body := by
  rw [isString] at isWord
  obtain ⟨inner, same⟩ := isWord.between (.inl ⟨rfl, rfl⟩)
  rw [← String.toList_inj]
  simp [Text.quoted, Grammar.unquote, same]

theorem backquoted_unquote (isFormatString : token.kind = .formatString) :
    Text.backquoted (Grammar.unquote token.body) = token.body := by
  rw [isFormatString] at isWord
  obtain ⟨inner, same⟩ := isWord.between (.inr ⟨rfl, rfl⟩)
  rw [← String.toList_inj]
  simp [Text.backquoted, Grammar.unquote, same]

/-- **A list literal has the leaves of what stands in it**, between square brackets. -/
theorem leaves_of_isListLiteral (isListLiteral : Grammar.isListLiteral token = true) :
    leaves token.body.toList =
      leaves "[".toList ++ (leaves (Grammar.unquote token.body).toList ++ leaves "]".toList) := by
  have seen : isUnseen token.kind = false := by
    rw [Grammar.isListLiteral, Bool.and_eq_true, beq_iff_eq] at isListLiteral
    simp [isListLiteral.1, isUnseen, Token.Kind.isTrivia, Token.Kind.isComment]
  have opens : leaves "[".toList = scan ['['] := by
    rw [leaves_eq]
    rfl
  have closes : leaves "]".toList = scan [']'] := by
    rw [leaves_eq]
    rfl
  have list : isList ⟨token.kind, token.body.toList⟩ = true := isListLiteral
  rw [leaves_of_isWord isWord, leavesOfLexeme, if_neg (by simp [seen]), if_pos list, opens, closes, Grammar.unquote,
    String.toList_ofList]
  rfl

/-- An empty list has the leaves of its square brackets. -/
theorem leaves_of_isEmptyList (isEmptyList : Grammar.isEmptyList token = true) :
    leaves token.body.toList = leaves "[".toList ++ leaves "]".toList := by
  rw [Grammar.isEmptyList, Bool.and_eq_true] at isEmptyList
  rw [leaves_of_isListLiteral isWord isEmptyList.1, leaves_of_isBlankLine isEmptyList.2, List.nil_append]

end Words

/-- A minus directly before a digit is a sign of its own. -/
theorem leaves_negative {text : String} (digit : text.toList.head?.any Char.isDigit = true) :
    leaves ("-" ++ text).toList = leaves "-".toList ++ leaves text.toList := by
  cases chars : text.toList with
  | nil => simp [chars] at digit
  | cons c rest =>
    rw [chars, List.head?_cons, Option.any_some] at digit
    have notArrow : c ≠ '>' := by
      rintro rfl
      exact absurd digit (by decide)
    have noOpening : ¬ Opening '-' (c :: rest) := by
      rintro ⟨⟩
      exact absurd digit (by decide)
    have minus : classify '-' (c :: rest) = (.operator .minus, 0) := by
      rw [classify_sign (by decide) (by decide) (by decide) noOpening]
      simp [sign, notArrow]
    have apart : scan ('-' :: c :: rest) = scan "-".toList ++ scan (c :: rest) := by
      rw [scan_cons, minus]
      rfl
    have whole : ("-" ++ text).toList = '-' :: c :: rest := by
      rw [String.toList_append, chars]
      rfl
    rw [whole, leaves_eq, apart, List.flatMap_append, ← leaves_eq, ← leaves_eq]

end DerwLang.Leaves
