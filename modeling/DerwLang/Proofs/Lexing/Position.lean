/-
**Where tokens stand.**

Tokens follow one another without a gap: none is empty, their texts make up the source, the first stands where the source
starts, and each next one where the one before it ends (`placed_tokenizeAt`). Main facts on the way:

* `position_of_split`: a token stands where the text before it ends;
* `tokenizeAt_eq_moved`: from which line and column on a text is read moves its tokens and changes nothing else;
* `position_of_interior`: the interior of a list literal is read from the place after its bracket on, so its tokens
  stand where they stand in the source.
-/

import DerwLang.Grammar.Pattern
import DerwLang.Proofs.Layout.Word
import Mathlib.Data.List.Chain
import Mathlib.Data.List.Induction

namespace DerwLang

open Layout Lexeme

/-! ## Where a text ends -/

/-- The line on which a text ends that starts on a line. -/
def Text.lineAfter (line : Nat) (text : String) : Nat :=
  line + text.toList.count '\n'

/-- The column after a text that starts at a column: what is counted is the part after its last line feed, or the whole
text. -/
def Text.columnAfter (column : Nat) (text : String) : Nat :=
  if '\n' ∈ text.toList then (text.toList.reverse.takeWhile (· != '\n')).length + 1 else column + text.length

theorem after_eq (position : Position) (text : String) :
    position.after text.toList = ⟨Text.lineAfter position.line text, Text.columnAfter position.column text⟩ := by
  rw [Text.lineAfter, Text.columnAfter, ← String.length_toList]
  generalize text.toList = own
  induction own using List.reverseRecOn with
  | nil => rfl
  | append_singleton own c step =>
    rw [after_append, step, after_cons, after_nil, Position.step]
    by_cases feed : c = '\n'
    · simp [feed]
      omega
    · by_cases member : '\n' ∈ own <;> simp [feed, Ne.symm feed, member]
      omega

theorem Text.lineAfter_append (line : Nat) (first second : String) :
    lineAfter line (first ++ second) = lineAfter (lineAfter line first) second := by
  simp [lineAfter, Nat.add_assoc]

theorem Text.columnAfter_append (column : Nat) (first second : String) :
    columnAfter column (first ++ second) = columnAfter (columnAfter column first) second := by
  have whole := after_eq ⟨0, column⟩ (first ++ second)
  rw [String.toList_append, after_append, after_eq, after_eq] at whole
  exact (congrArg Position.column whole).symm

/-- The column after the token's text. -/
def Token.endColumn (token : Token) : Nat :=
  Text.columnAfter token.column token.body

/-! ## Placed lexemes -/

namespace Token

theorem text_cons (token : Token) (rest : List Token) : text (token :: rest) = token.body ++ text rest := by
  rw [text, List.map_cons, String.join_cons, text]

theorem text_append (front back : List Token) : text (front ++ back) = text front ++ text back := by
  induction front with
  | nil => simp [text]
  | cons token front step => rw [List.cons_append, text_cons, text_cons, step, String.append_assoc]

/-- The texts of placed lexemes are their characters. -/
theorem toList_text_place (position : Position) (lexemes : List Lexeme) :
    (text (place position lexemes)).toList = lexemes.flatMap Lexeme.chars := by
  induction lexemes generalizing position with
  | nil => rfl
  | cons lexeme more step =>
    rw [place, text_cons, String.toList_append, String.toList_ofList, List.flatMap_cons, step]

theorem length_place (position : Position) (lexemes : List Lexeme) : (place position lexemes).length = lexemes.length := by
  induction lexemes generalizing position with
  | nil => rfl
  | cons lexeme more step => simp [place, step]

/-- Placed lexemes are cut where the lexemes are, and the later ones stand where the text of the earlier ones ends. -/
theorem place_split {position : Position} {lexemes : List Lexeme} {front back : List Token}
    (split : place position lexemes = front ++ back) :
    ∃ before after, lexemes = before ++ after ∧ place position before = front ∧
      place (position.after (text front).toList) after = back := by
  induction front generalizing position lexemes with
  | nil => exact ⟨[], lexemes, rfl, rfl, split⟩
  | cons token front step =>
    cases lexemes with
    | nil => simp [place] at split
    | cons lexeme more =>
      rw [place, List.cons_append, List.cons.injEq] at split
      obtain ⟨rfl, split⟩ := split
      obtain ⟨before, after, rfl, early, late⟩ := step split
      refine ⟨lexeme :: before, after, rfl, by rw [place, early], ?_⟩
      rw [text_cons, String.toList_append, String.toList_ofList, after_append]
      exact late

/-- The tokens of lexemes are the lexemes in their places. -/
theorem mem_place {position : Position} {lexemes : List Lexeme} {token : Token} (member : token ∈ place position lexemes) :
    ∃ lexeme ∈ lexemes, token.kind = lexeme.kind ∧ token.body = String.ofList lexeme.chars := by
  induction lexemes generalizing position with
  | nil => simp [place] at member
  | cons lexeme more step =>
    rcases List.mem_cons.mp member with rfl | later
    · exact ⟨lexeme, List.mem_cons_self, rfl, rfl⟩
    · obtain ⟨found, among, same⟩ := step later
      exact ⟨found, List.mem_cons_of_mem _ among, same⟩

/-- Each placed lexeme stands where the one before it ends. -/
theorem isChain_place (position : Position) (lexemes : List Lexeme) :
    (place position lexemes).IsChain fun previous next =>
      next.line = previous.endLine ∧ next.column = previous.endColumn := by
  induction lexemes generalizing position with
  | nil => exact .nil
  | cons lexeme more step =>
    cases more with
    | nil => exact .singleton _
    | cons next others =>
      refine List.isChain_cons_cons.mpr ⟨?_, step _⟩
      have ending := after_eq position (String.ofList lexeme.chars)
      rw [String.toList_ofList] at ending
      simp [ending, endLine, endColumn, Text.lineAfter]

/-- The token in a text that starts at a line and a column. -/
def moved (line column : Nat) (token : Token) : Token :=
  { token with
    line := token.line + line - 1
    column := if token.line = 1 then token.column + column - 1 else token.column }

end Token

/-- The position in a text that starts at a line and a column. -/
def Position.moved (line column : Nat) (position : Position) : Position :=
  ⟨position.line + line - 1, if position.line = 1 then position.column + column - 1 else position.column⟩

/-- Lines and columns count from one. -/
def Position.Counted (position : Position) : Prop :=
  1 ≤ position.line ∧ 1 ≤ position.column

theorem Position.Counted.step {position : Position} (counted : position.Counted) (c : Char) : (position.step c).Counted := by
  unfold Position.step
  split
  · exact ⟨Nat.le_add_left _ _, Nat.le_refl _⟩
  · exact ⟨counted.1, Nat.le_add_left _ _⟩

theorem step_moved {position : Position} (counted : position.Counted) (line column : Nat) (c : Char) :
    (position.moved line column).step c = (position.step c).moved line column := by
  obtain ⟨lineCounted, columnCounted⟩ := counted
  unfold Position.step Position.moved
  by_cases feed : c = '\n'
  · simp [feed]
    omega
  · by_cases firstLine : position.line = 1 <;> simp [feed, firstLine]
    omega

theorem after_moved {position : Position} (counted : position.Counted) (line column : Nat) (own : List Char) :
    (position.moved line column).after own = (position.after own).moved line column ∧ (position.after own).Counted := by
  induction own generalizing position with
  | nil => exact ⟨rfl, counted⟩
  | cons c rest ih =>
    rw [after_cons, after_cons, step_moved counted]
    exact ih (counted.step c)

theorem Token.place_moved {position : Position} (counted : position.Counted) (line column : Nat) (lexemes : List Lexeme) :
    place (position.moved line column) lexemes = (place position lexemes).map (Token.moved line column) := by
  induction lexemes generalizing position with
  | nil => rfl
  | cons lexeme more step =>
    obtain ⟨same, counted⟩ := after_moved counted line column lexeme.chars
    rw [place, place, List.map_cons, same, step counted]
    rfl

/-! ## Tokens of a source -/

section Source

variable {source : String} {line column : Nat}

theorem text_tokenizeAt (source : String) (line column : Nat) : Token.text (tokenizeAt source line column) = source := by
  rw [← String.toList_inj, tokenizeAt, Token.toList_text_place, chars_scan]

/-- No token is empty. -/
theorem body_ne_empty {token : Token} (member : token ∈ tokenizeAt source line column) : token.body ≠ "" := by
  obtain ⟨lexeme, among, -, body⟩ := Token.mem_place member
  rw [body]
  intro empty
  refine chars_ne_nil 0 source.toList lexeme among ?_
  simpa using empty

/-- **A token stands where the text before it ends.** -/
theorem position_of_split {front back : List Token} {token : Token}
    (split : tokenizeAt source line column = front ++ token :: back) :
    token.line = Text.lineAfter line (Token.text front) ∧ token.column = Text.columnAfter column (Token.text front) := by
  obtain ⟨_, after, -, -, late⟩ := Token.place_split split
  rw [after_eq] at late
  cases after with
  | nil => cases late
  | cons lexeme more =>
    obtain ⟨rfl, -⟩ := List.cons.inj late
    exact ⟨rfl, rfl⟩

/-- **Where a text is read from moves its tokens.** -/
theorem tokenizeAt_eq_moved (source : String) (line column : Nat) :
    tokenizeAt source line column = (tokenize source).map (Token.moved line column) := by
  have counted : Position.Counted ⟨1, 1⟩ := ⟨Nat.le_refl _, Nat.le_refl _⟩
  have moved := Token.place_moved counted line column (scan source.toList)
  rwa [show Position.moved line column ⟨1, 1⟩ = ⟨line, column⟩ by simp [Position.moved]] at moved

/-- A list literal is what stands between its brackets. -/
theorem body_of_isListLiteral {token : Token} (member : token ∈ tokenizeAt source line column)
    (isList : Grammar.isListLiteral token = true) : token.body = "[" ++ Grammar.unquote token.body ++ "]" := by
  obtain ⟨lexeme, among, kind, body⟩ := Token.mem_place member
  rw [Grammar.isListLiteral, Bool.and_eq_true, beq_iff_eq] at isList
  have isWord : IsWord .literal token.body.toList := by
    rw [body, String.toList_ofList, ← isList.1, kind]
    exact isWord_of_mem_scan among
  obtain ⟨rest, opened⟩ : ∃ rest, token.body.toList = '[' :: rest := by
    obtain ⟨rest, same⟩ := List.isPrefixOf_iff_prefix.mp isList.2
    exact ⟨rest, same.symm⟩
  rw [opened] at isWord
  have closed : rest.getLast? = some ']' := by
    rcases isWord.form rfl with ⟨_, _, -, named⟩ | ⟨quote, _, quotes, same, -⟩ | ⟨_, same, closed⟩
    · rw [List.all_cons, Bool.and_eq_true] at named
      exact absurd named.1 (by decide)
    · rcases quotes with rfl | rfl <;> simp at same
    · obtain ⟨-, rfl⟩ := List.cons.inj same
      exact getLast?_of_listLength closed
  obtain ⟨inner, rfl⟩ := List.getLast?_eq_some_iff.mp closed
  rw [← String.toList_inj, String.toList_append, String.toList_append, Grammar.unquote, String.toList_ofList, opened]
  simp

/-- **The interior of a list literal stands in its true place.** -/
theorem position_of_interior {front back before after : List Token} {literal token : Token}
    (split : tokenizeAt source line column = front ++ literal :: back) (isList : Grammar.isListLiteral literal = true)
    (inside : tokenizeAt (Grammar.unquote literal.body) literal.line (literal.column + 1) = before ++ token :: after) :
    source = Token.text front ++ "[" ++ Token.text before ++ token.body ++ Token.text after ++ "]" ++ Token.text back ∧
      token.line = Text.lineAfter line (Token.text front ++ "[" ++ Token.text before) ∧
      token.column = Text.columnAfter column (Token.text front ++ "[" ++ Token.text before) := by
  have body := body_of_isListLiteral (split ▸ List.mem_append_right _ List.mem_cons_self) isList
  have outer := text_tokenizeAt source line column
  have inner := text_tokenizeAt (Grammar.unquote literal.body) literal.line (literal.column + 1)
  rw [split] at outer
  rw [inside] at inner
  obtain ⟨lineOut, columnOut⟩ := position_of_split split
  obtain ⟨lineIn, columnIn⟩ := position_of_split inside
  have bracket : Text.columnAfter literal.column "[" = literal.column + 1 := rfl
  refine ⟨?_, ?_, ?_⟩
  · rw [Token.text_append, Token.text_cons] at outer inner
    rw [body, ← inner] at outer
    rw [← outer]
    simp only [String.append_assoc]
  · rw [Text.lineAfter_append, Text.lineAfter_append, ← lineOut, lineIn]
    rfl
  · rw [Text.columnAfter_append, Text.columnAfter_append, ← columnOut, columnIn, bracket]

/-- **Tokens lie in the source without a gap, each in its place.** -/
theorem placed_tokenizeAt (source : String) (line column : Nat) :
    (∀ token ∈ tokenizeAt source line column, token.body ≠ "") ∧
    Token.text (tokenizeAt source line column) = source ∧
    (∀ first ∈ (tokenizeAt source line column).head?, first.line = line ∧ first.column = column) ∧
    (tokenizeAt source line column).IsChain
      (fun previous next => next.line = previous.endLine ∧ next.column = previous.endColumn) ∧
    (∃ after, (Lexer.startingAt source line column).tokenize = (tokenizeAt source line column, after) ∧
      after.tokenize.1 = []) ∧
    (∀ token ∈ tokenize source, 1 ≤ token.line ∧ 1 ≤ token.column) ∧
    tokenizeAt source line column = (tokenize source).map (Token.moved line column) ∧
    ∀ front literal back, tokenizeAt source line column = front ++ literal :: back →
      Grammar.isListLiteral literal = true →
      ∀ before token after,
        tokenizeAt (Grammar.unquote literal.body) literal.line (literal.column + 1) = before ++ token :: after →
        source = Token.text front ++ "[" ++ Token.text before ++ token.body ++ Token.text after ++ "]" ++
            Token.text back ∧
          token.line = Text.lineAfter line (Token.text front ++ "[" ++ Token.text before) ∧
          token.column = Text.columnAfter column (Token.text front ++ "[" ++ Token.text before) := by
  refine ⟨fun _ => body_ne_empty, text_tokenizeAt source line column, ?_, Token.isChain_place _ _, ⟨_, rfl, rfl⟩, ?_,
    tokenizeAt_eq_moved source line column, fun front literal back split isList before token after inside =>
      position_of_interior split isList inside⟩
  · intro first member
    obtain ⟨more, split⟩ := List.head?_eq_some_iff.mp member
    rw [← List.nil_append (first :: more)] at split
    exact position_of_split split
  · intro token member
    obtain ⟨front, back, split⟩ := List.append_of_mem member
    obtain ⟨onLine, atColumn⟩ := position_of_split split
    rw [onLine, atColumn, Text.lineAfter, Text.columnAfter]
    refine ⟨Nat.le_add_right _ _, ?_⟩
    split <;> omega

end Source

end DerwLang
