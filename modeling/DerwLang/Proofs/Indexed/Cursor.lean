/-
**A cursor sees a window.**

A cursor stands between the tokens in front of it and those behind the place where it stops, and what it sees is the window of
the tokens between (`Cursor.Views`). What it finds by its index is then what lies first in the window, and loops over indices
cut where windows are cut. A reading by index that makes no access in vain comes to what the reading of the window comes to
(`Agrees`).
-/

import DerwLang.Indexed.Cursor
import DerwLang.Proofs.Indexed.TypeSegment
import DerwLang.Proofs.Lines.Lowered

namespace DerwLang

open Grammar (isListLiteral unquote)

/-! ## Weight -/

theorem Token.weight_pos (token : Token) : 0 < token.weight :=
  Nat.le_max_left _ _

/-- Fewer tokens do not weigh more. -/
theorem Window.weight_le_of_sublist {before other : Nat} {inner tokens : List Token} (among : inner.Sublist tokens) :
    Window.weight ⟨before, inner⟩ ≤ Window.weight ⟨other, tokens⟩ := by
  unfold Window.weight
  induction among with
  | slnil => exact Nat.le_refl _
  | cons token _ step => exact step.trans (Nat.le_add_left _ _)
  | cons_cons token _ step => exact Nat.add_le_add_left step _

/-- What is among the tokens after the first one weighs less than all of them. -/
theorem Window.light_of_sublist {before other bound : Nat} {token : Token} {rest inner : List Token}
    (light : Window.weight ⟨before, token :: rest⟩ ≤ bound + 1) (among : inner.Sublist rest) :
    Window.weight ⟨other, inner⟩ ≤ bound := by
  have later : Window.weight ⟨other, inner⟩ ≤ Window.weight ⟨before, rest⟩ := Window.weight_le_of_sublist among
  have own := token.weight_pos
  have whole : Window.weight ⟨before, token :: rest⟩ = token.weight + Window.weight ⟨before, rest⟩ := rfl
  omega

/-- A window without weight holds no tokens. -/
theorem Window.nil_of_weight {window : Window} (light : window.weight ≤ 0) : window = ⟨window.before, []⟩ := by
  obtain ⟨before, tokens⟩ := window
  cases tokens with
  | nil => rfl
  | cons token rest =>
    have own := token.weight_pos
    have whole : Window.weight ⟨before, token :: rest⟩ = token.weight + Window.weight ⟨before, rest⟩ := rfl
    omega

theorem Cut.inside_sublist {cut : Cut} {tokens : List Token} (whole : cut.all = tokens) : cut.inside.Sublist tokens := by
  rw [← whole]
  exact List.sublist_append_left _ _

theorem Cut.after_suffix {cut : Cut} {tokens : List Token} (whole : cut.all = tokens) : cut.after <:+ tokens := by
  rw [← whole]
  exact (List.suffix_cons _ _).trans (List.suffix_append _ _)

/-- A source weighs as much as it has characters. -/
theorem weight_tokenizeAt (source : String) (line column before : Nat) :
    Window.weight ⟨before, tokenizeAt source line column⟩ = source.length := by
  have total : ∀ tokens : List Token, (∀ token ∈ tokens, token.body ≠ "") →
      Window.weight ⟨before, tokens⟩ = (Token.text tokens).length := by
    intro tokens filled
    induction tokens with
    | nil => rfl
    | cons token rest step =>
      rw [List.forall_mem_cons] at filled
      have some_ : token.body.length ≠ 0 := fun none_ => filled.1 (String.length_eq_zero_iff.mp none_)
      have own : token.weight = token.body.length := Nat.max_eq_right (Nat.one_le_iff_ne_zero.mpr some_)
      rw [Token.text_cons, String.length_append, ← own, ← step filled.2]
      rfl
  rw [total _ fun _ => body_ne_empty, text_tokenizeAt]

/-- A list literal is what stands between its brackets. -/
def Token.Enclosed (token : Token) : Prop :=
  isListLiteral token = true → token.body = "[" ++ unquote token.body ++ "]"

/-- The list literals of a source stand between their brackets. -/
theorem enclosed_tokenizeAt (source : String) (line column : Nat) :
    ∀ token ∈ Token.significant (tokenizeAt source line column), token.Enclosed :=
  fun _ member => body_of_isListLiteral (Token.of_mem_significant member)

/-- The interior of a literal weighs less than the literal. -/
theorem weight_interior (literal : Token) (line column before : Nat) :
    Window.weight ⟨before, Token.significant (tokenizeAt (unquote literal.body) line column)⟩ < literal.weight := by
  have among : Window.weight ⟨before, Token.significant (tokenizeAt (unquote literal.body) line column)⟩ ≤
      Window.weight ⟨before, tokenizeAt (unquote literal.body) line column⟩ := Window.weight_le_of_sublist List.filter_sublist
  have inner : (unquote literal.body).length = literal.body.length - 1 - 1 := by
    rw [unquote, String.length_ofList, List.length_dropLast, List.length_drop, String.length_toList]
  rw [weight_tokenizeAt] at among
  unfold Token.weight
  omega

namespace Indexed

/-! ## Results -/

/-- A reading with accesses makes none of them in vain, and comes to what the other reading comes to: a related value, or the
same error. -/
inductive Agrees {α β : Type} (related : α → β → Prop) : Guarded α → Parsed β → Prop
  | ok {value : α} {other : β} (same : related value other) : Agrees related (.ofParsed (.ok value)) (.ok other)
  | error (error : ParseError) : Agrees related (.ofParsed (.error error)) (.error error)

namespace Agrees

variable {α β γ δ : Type} {related : α → β → Prop} {further : γ → δ → Prop}

/-- The same value, from both. -/
theorem value (result : α) : Agrees Eq (pure result) (.ok result) :=
  .ok rfl

/-- The same text is refused by both. -/
theorem blamed (cause : ParseError.Cause) (line : Nat) : Agrees related (.refuse cause line) (.error ⟨cause, line⟩) :=
  .error _

/-- Steps agree when each of them does. -/
theorem bind {first : Guarded α} {second : Parsed β} {goOn : α → Guarded γ} {goOn' : β → Parsed δ}
    (one : Agrees related first second)
    (two : ∀ value other, related value other → Agrees further (goOn value) (goOn' other)) :
    Agrees further (first >>= goOn) (second >>= goOn') := by
  cases one with
  | ok same => exact two _ _ same
  | error error => exact .error error

/-- Steps agree when each of them does, with what relates the first ones named. -/
theorem bind_by (related : α → β → Prop) {first : Guarded α} {second : Parsed β} {goOn : α → Guarded γ} {goOn' : β → Parsed δ}
    (one : Agrees related first second)
    (two : ∀ value other, related value other → Agrees further (goOn value) (goOn' other)) :
    Agrees further (first >>= goOn) (second >>= goOn') :=
  one.bind two

/-- What is related one way may be related another way. -/
theorem mono {other : α → β → Prop} {guarded : Guarded α} {parsed : Parsed β} (agrees : Agrees related guarded parsed)
    (weaker : ∀ value value', related value value' → other value value') : Agrees other guarded parsed := by
  cases agrees with
  | ok same => exact .ok (weaker _ _ same)
  | error error => exact .error error

theorem map {first : Guarded α} {second : Parsed β} {change : α → γ} {change' : β → δ} (one : Agrees related first second)
    (two : ∀ value other, related value other → further (change value) (change' other)) :
    Agrees further (change <$> first) (change' <$> second) := by
  cases one with
  | ok same => exact .ok (two _ _ same)
  | error error => exact .error error

/-- A reading without any access agrees with itself. -/
theorem ofParsed (parsed : Parsed α) : Agrees Eq (.ofParsed parsed) parsed := by
  cases parsed with
  | ok value => exact .ok rfl
  | error error => exact .error error

/-- A test that comes out the same in both. -/
theorem ite {test : Prop} [Decidable test] {first first' : Guarded α} {second second' : Parsed β}
    (yes : test → Agrees related first second) (no : ¬ test → Agrees related first' second') :
    Agrees related (if test then first else first') (if test then second else second') := by
  split
  · exact yes ‹test›
  · exact no ‹¬ test›

/-- Readings of many parts agree when those of each part do. -/
theorem mapM {inputs : List α} {others : List β} {read : α → Guarded γ} {read' : β → Parsed γ}
    (each : List.Forall₂ (fun input other => Agrees Eq (read input) (read' other)) inputs others) :
    Agrees Eq (inputs.mapM read) (others.mapM read') := by
  induction each with
  | nil => exact .value []
  | cons one _ step =>
    rw [List.mapM_cons, List.mapM_cons]
    refine one.bind ?_
    rintro value _ rfl
    refine step.bind ?_
    rintro values _ rfl
    exact .value _

/-- What agrees makes no access in vain. -/
theorem run_eq {guarded : Guarded α} {parsed : Parsed α} (agrees : Agrees Eq guarded parsed) : guarded.run = .ok parsed := by
  cases agrees with
  | ok same => rw [same]; rfl
  | error error => rfl

end Agrees

/-- After an access that finds something, the reading goes on with it. -/
theorem access_bind {α β : Type} {checked : Checked α} {value : α} (found : checked = .ok value) (goOn : α → Guarded β) :
    (access checked >>= goOn) = goOn value := by
  rw [found]
  rfl

/-! ## Views -/

/-- The line of the last token in front, or else of the first one behind. -/
def lineBefore (done following : List Token) : Nat :=
  ((done.getLast?.or following.head?).map Token.line).getD 1

/-- Behind a token, its line is the one in front. -/
theorem lineBefore_push (done following : List Token) (previous : Token) :
    lineBefore (done ++ [previous]) following = previous.line := by
  simp [lineBefore]

namespace Cursor

/-- The cursor with some tokens ahead, between those in front and those behind. -/
def around (done own after : List Token) : Cursor :=
  ⟨done ++ (own ++ after), done.length, done.length + own.length⟩

/-- The cursor sees the tokens of the window, and knows the line to blame in front of them. -/
def Views (cursor : Cursor) (window : Window) : Prop :=
  ∃ done after, cursor = around done window.tokens after ∧
    window.before = lineBefore done (window.tokens ++ after) ∧ ∀ token ∈ window.tokens, token.Enclosed

variable {cursor : Cursor} {window : Window} {token : Token} {before : Nat} {rest : List Token}

theorem views_start {tokens : List Token} (enclosed : ∀ token ∈ tokens, token.Enclosed) :
    (start tokens).Views ⟨Grammar.lineOf tokens, tokens⟩ := by
  refine ⟨[], [], ?_, ?_, enclosed⟩
  · simp [start, around]
  · simp [lineBefore, Grammar.lineOf]

/-- **A cut of the window is one of what the cursor sees:** it may stop in front of the token there, or go on after it. -/
theorem Views.cut {cut : Cut} (views : cursor.Views window) (whole : cut.all = window.tokens) :
    (cursor.between cursor.index (cursor.index + cut.inside.length)).Views ⟨window.before, cut.inside⟩ ∧
      (cursor.moved (cursor.index + cut.inside.length + 1)).Views ⟨cut.token.line, cut.after⟩ := by
  obtain ⟨done, after, rfl, before, enclosed⟩ := views
  rw [← whole, Cut.all] at before enclosed
  rw [List.forall_mem_append, List.forall_mem_cons] at enclosed
  refine ⟨⟨done, cut.token :: cut.after ++ after, ?_, ?_, enclosed.1⟩, ⟨done ++ cut.inside ++ [cut.token], after, ?_, ?_, enclosed.2.2⟩⟩
  · simp [around, between, ← whole, Cut.all]
  · rw [before, List.append_assoc]
  · simp [around, moved, ← whole, Cut.all]
    omega
  · exact (lineBefore_push _ _ _).symm

/-- The first token of the window is the one at the cursor. -/
theorem Views.head (views : cursor.Views ⟨before, token :: rest⟩) : Checked.item cursor.tokens cursor.index = .ok token := by
  obtain ⟨done, after, rfl, -, -⟩ := views
  simp [Checked.item, around]

theorem Views.enclosed (views : cursor.Views window) : ∀ token ∈ window.tokens, token.Enclosed := by
  obtain ⟨done, after, rfl, -, enclosed⟩ := views
  exact enclosed

theorem Views.next (views : cursor.Views ⟨before, token :: rest⟩) : cursor.next.Views ⟨token.line, rest⟩ :=
  (@cut _ _ ⟨[], token, rest⟩ views rfl).2

/-- When a kind comes next, the cursor goes on to the rest of the window. -/
theorem Views.next_of_nextKind {kind : Token.Kind} (views : cursor.Views window) (found : window.nextKind = some kind) :
    cursor.next.Views ⟨window.line, window.tokens.tail⟩ := by
  obtain ⟨before, tokens⟩ := window
  cases tokens with
  | nil => cases found
  | cons token rest => exact views.next

theorem Views.peekAt (views : cursor.Views window) (offset : Nat) : cursor.peekAt offset = window.tokens[offset]? := by
  obtain ⟨done, after, rfl, -, -⟩ := views
  unfold Cursor.peekAt around
  dsimp only
  split
  · rw [List.getElem?_append_right (by omega), List.getElem?_append_left (by omega)]
    congr 1
    omega
  · rw [List.getElem?_eq_none (by omega)]

theorem Views.peek (views : cursor.Views window) : cursor.peek = window.tokens.head? := by
  rw [Cursor.peek, views.peekAt, List.head?_eq_getElem?]

theorem Views.nextKind (views : cursor.Views window) : cursor.nextKind = window.nextKind := by
  rw [Cursor.nextKind, views.peek, Window.nextKind]

theorem Views.found (views : cursor.Views window) : cursor.found = window.found := by
  rw [Cursor.found, views.peek, Window.found]

/-- The line in front is that of the token one index back. -/
theorem lineBefore_eq (done following : List Token) :
    lineBefore done following = (((done ++ following)[done.length - 1]?).map Token.line).getD 1 := by
  rw [lineBefore]
  cases done using List.reverseRecOn with
  | nil => rw [List.getLast?_nil, Option.none_or, List.head?_eq_getElem?]; rfl
  | append_singleton front last => simp

theorem Views.line (views : cursor.Views window) : cursor.line = window.line := by
  rw [Cursor.line, views.peek, Window.line]
  cases tokens : window.tokens with
  | cons token rest => rfl
  | nil =>
    obtain ⟨done, after, rfl, before, -⟩ := views
    rw [before, lineBefore_eq, tokens]
    simp [around]

/-- The text is refused at the place of the window. -/
theorem Views.refuse {α β : Type} {related : α → β → Prop} (views : cursor.Views window) (cause : ParseError.Cause) :
    Agrees related (cursor.refuse cause) (window.error cause) := by
  rw [Cursor.refuse, Window.error, views.line]
  exact .blamed _ _

/-- Nothing is read on after a text is refused. -/
theorem Views.refuse_bind {α β γ : Type} {related : α → β → Prop} (views : cursor.Views window) (cause : ParseError.Cause)
    (goOn : γ → Guarded α) : Agrees related (cursor.refuse cause >>= goOn) (window.error cause) := by
  rw [Cursor.refuse, Window.error, views.line]
  exact .blamed _ _

/-- The tokens of the window as a slice. -/
theorem Views.slice (views : cursor.Views window) : Checked.slice cursor.tokens cursor.index cursor.stop = .ok window.tokens := by
  obtain ⟨done, after, rfl, -, -⟩ := views
  exact slice_append done window.tokens after

theorem Views.stop (views : cursor.Views window) : cursor.stop = cursor.index + window.tokens.length := by
  obtain ⟨done, after, rfl, -, -⟩ := views
  rfl

theorem Views.length (views : cursor.Views window) : cursor.stop - cursor.index = window.tokens.length := by
  rw [views.stop, Nat.add_sub_cancel_left]

/-- After all its tokens the cursor sees what is left of a finished window. -/
theorem Views.finished (views : cursor.Views window) : (cursor.moved cursor.stop).Views window.finished := by
  obtain ⟨done, after, rfl, before, -⟩ := views
  refine ⟨done ++ window.tokens, after, ?_, ?_, by simp [Window.finished]⟩
  · simp [around, moved, Window.finished]
  · rw [Window.finished, before]
    cases tokens : window.tokens using List.reverseRecOn with
    | nil => simp
    | append_singleton front last => simp [lineBefore]

end Cursor

/-! ## Steps that all readers take -/

/-- The same value, and a cursor that sees the window that is left; its tokens are the last ones of the given tokens. -/
def Left {α : Type} (tokens : List Token) (first : α × Cursor) (second : α × Window) : Prop :=
  first.1 = second.1 ∧ first.2.Views second.2 ∧ second.2.tokens <:+ tokens

section Steps

variable {cursor : Cursor} {window : Window} {tokens : List Token}

theorem Agrees.left {α : Type} (result : α) (views : cursor.Views window) (among : window.tokens <:+ tokens) :
    Agrees (Left tokens) (pure (result, cursor)) (.ok (result, window)) :=
  .ok ⟨rfl, views, among⟩

theorem agrees_expectEnd (views : cursor.Views window) (construct : Construct) :
    Agrees Eq (cursor.expectEnd construct) (window.expectEnd construct) := by
  obtain ⟨before, tokens⟩ := window
  rw [Cursor.expectEnd, views.peek]
  cases tokens with
  | nil => exact .value ()
  | cons token rest => exact views.refuse _

theorem agrees_expect (views : cursor.Views window) (kind : Token.Kind) (place : Requirement) :
    Agrees (Left window.tokens.tail) (cursor.expect kind place) (window.expect kind place) := by
  obtain ⟨before, tokens⟩ := window
  rw [Cursor.expect, views.peek]
  cases tokens with
  | nil => exact views.refuse _
  | cons token rest => exact .ite (fun _ => .left _ views.next (List.suffix_refl _)) fun _ => views.refuse _

/-- A reading that asks for a token goes on from the first token of the window, if that is of the kind. -/
theorem agrees_expect_bind {α β : Type} {related : α → β → Prop} {before : Nat} {kind : Token.Kind} {place : Requirement}
    {goOn : Token × Cursor → Guarded α} {goOn' : Token × Window → Parsed β} (views : cursor.Views ⟨before, tokens⟩)
    (found : ∀ token rest, tokens = token :: rest → token.kind = kind →
      Agrees related (goOn (token, cursor.next)) (goOn' (token, ⟨token.line, rest⟩))) :
    Agrees related (cursor.expect kind place >>= goOn) (Window.expect ⟨before, tokens⟩ kind place >>= goOn') := by
  rw [Cursor.expect, views.peek]
  cases tokens with
  | nil => exact views.refuse_bind _ _
  | cons token rest =>
    dsimp only [Window.expect, List.head?_cons]
    split
    · exact found token rest rfl (beq_iff_eq.mp ‹_›)
    · exact views.refuse_bind _ _

/-- Names are taken in no more rounds than there are tokens. -/
theorem names_eq {round : Nat} (views : cursor.Views window) (long : window.tokens.length < round) :
    ∃ ending, cursor.names round = pure (window.takeNames.1, ending) ∧ ending.Views window.takeNames.2 ∧
      window.takeNames.2.tokens <:+ window.tokens := by
  induction round generalizing cursor window with
  | zero => simp at long
  | succ round step =>
    obtain ⟨before, tokens⟩ := window
    rw [Cursor.names, views.peek]
    cases tokens with
    | nil => exact ⟨cursor, rfl, views, List.suffix_refl _⟩
    | cons token rest =>
      rw [Window.takeNames, Window.namesFrom]
      by_cases isName : (token.kind == .identifier) = true
      · obtain ⟨ending, read, left, among⟩ := step views.next (Nat.lt_of_succ_lt_succ long)
        rw [if_pos isName, List.head?_cons]
        dsimp only
        rw [if_pos isName, read, pure_bind]
        exact ⟨ending, rfl, left, among.trans (List.suffix_cons _ _)⟩
      · rw [if_neg isName, List.head?_cons]
        dsimp only
        rw [if_neg isName]
        exact ⟨cursor, rfl, views, List.suffix_refl _⟩

/-- The rounds of a loop are more than there are tokens. -/
theorem Cursor.Views.rounds (views : cursor.Views window) : window.tokens.length < cursor.rounds := by
  rw [Cursor.rounds, views.length]
  exact Nat.lt_succ_self _

theorem takeNames_eq (views : cursor.Views window) :
    ∃ ending, cursor.takeNames = pure (window.takeNames.1, ending) ∧ ending.Views window.takeNames.2 ∧
      window.takeNames.2.tokens <:+ window.tokens :=
  names_eq views views.rounds

end Steps

/-! ## Cuts -/

/-- The token that lies first behind some others. -/
theorem item_append (done rest : List Token) (token : Token) : Checked.item (done ++ token :: rest) done.length = .ok token := by
  simp [Checked.item]

theorem item_append_next (done rest : List Token) (previous token : Token) :
    Checked.item (done ++ previous :: token :: rest) (done.length + 1) = .ok token := by
  have later := item_append (done ++ [previous]) rest token
  rwa [List.append_assoc, List.length_append] at later

section Cuts

variable {cursor : Cursor} {before : Nat} {token : Token} {rest : List Token} {window : Window}

/-- Where a cut is made, with one more token in front. -/
theorem map_push (cut? : Option Cut) (token : Token) (start : Nat) :
    ((cut?.map (Cut.push token)).map fun cut => start + cut.inside.length) =
      cut?.map fun cut => start + 1 + cut.inside.length := by
  cases cut? with
  | none => rfl
  | some cut => simp [Cut.push, Nat.add_assoc, Nat.add_comm 1]

/-- The loop that counts brackets finds where the tokens are cut, and its count does not fall below zero. -/
theorem closingFrom_eq (opening closing : Token.Kind) (depth : Nat) (done own after : List Token) :
    closingFrom (done ++ (own ++ after)) opening closing own.length (depth + 1) done.length =
      .ok ((Token.splitClose opening closing depth own).map fun cut => done.length + cut.inside.length) := by
  induction own generalizing depth done with
  | nil => rfl
  | cons token own step =>
    have further (depth : Nat) : closingFrom (done ++ token :: (own ++ after)) opening closing own.length (depth + 1) (done.length + 1) =
        .ok (((Token.splitClose opening closing depth own).map (Cut.push token)).map fun cut => done.length + cut.inside.length) := by
      have later := step depth (done ++ [token])
      rwa [List.append_assoc, List.singleton_append, List.length_append, List.length_singleton, ← map_push] at later
    rw [List.length_cons, List.cons_append, closingFrom, item_append, Checked.ok_bind, Token.splitClose.eq_def]
    dsimp only
    split
    · exact further (depth + 1)
    · split
      · cases depth with
        | zero => rfl
        | succ depth =>
          rw [Checked.minus_one]
          exact further depth
      · exact further depth

/-- **The bracket that closes the one at the cursor is found where the window is cut.** -/
theorem closing_eq {opening closing' : Token.Kind} (views : cursor.Views ⟨before, token :: rest⟩) (opens : token.kind = opening)
    (pair : (if token.kind == .openCurly then (.openCurly, .closeCurly) else (.openBracket, .closeBracket) :
      Token.Kind × Token.Kind) = (opening, closing')) :
    closing cursor cursor.index =
      match Token.splitClose opening closing' 0 rest with
      | some cut => pure (cursor.index + 1 + cut.inside.length)
      | none => .refuse (.unclosed opening closing') token.line := by
  have item := views.head
  have found : closingFrom cursor.tokens opening closing' (cursor.stop - cursor.index) 0 cursor.index =
      .ok ((Token.splitClose opening closing' 0 rest).map fun cut => cursor.index + 1 + cut.inside.length) := by
    have length := views.length
    obtain ⟨done, after, rfl, -, -⟩ := views
    have inner := closingFrom_eq opening closing' 0 (done ++ [token]) rest after
    rw [length, List.length_cons, closingFrom, item, Checked.ok_bind, if_pos (by simpa using opens)]
    simpa [Cursor.around] using inner
  rw [closing, access_bind item, pair]
  dsimp only
  rw [access_bind found]
  cases Token.splitClose opening closing' 0 rest <;> rfl

theorem closing_curly (views : cursor.Views ⟨before, token :: rest⟩) (opens : token.kind = .openCurly) :
    closing cursor cursor.index =
      match Token.splitClose .openCurly .closeCurly 0 rest with
      | some cut => pure (cursor.index + 1 + cut.inside.length)
      | none => .refuse (.unclosed .openCurly .closeCurly) token.line :=
  closing_eq views opens (by rw [opens]; rfl)

theorem closing_round (views : cursor.Views ⟨before, token :: rest⟩) (opens : token.kind = .openBracket) :
    closing cursor cursor.index =
      match Token.splitClose .openBracket .closeBracket 0 rest with
      | some cut => pure (cursor.index + 1 + cut.inside.length)
      | none => .refuse (.unclosed .openBracket .closeBracket) token.line :=
  closing_eq views opens (by rw [opens]; rfl)

/-- The loop over reserved words finds where the tokens are cut. -/
theorem keywordFrom_eq (target opener : Keyword) (closer? : Option Keyword) (depth : Nat) (done own after : List Token) :
    keywordFrom (done ++ (own ++ after)) target opener closer? own.length depth done.length =
      .ok ((Token.splitKeyword target opener (closer?.getD target) depth own).map fun cut => done.length + cut.inside.length) := by
  induction own generalizing depth done with
  | nil => rfl
  | cons token own step =>
    have further (depth : Nat) :
        keywordFrom (done ++ token :: (own ++ after)) target opener closer? own.length depth (done.length + 1) =
          .ok (((Token.splitKeyword target opener (closer?.getD target) depth own).map (Cut.push token)).map fun cut =>
            done.length + cut.inside.length) := by
      have later := step depth (done ++ [token])
      rwa [List.append_assoc, List.singleton_append, List.length_append, List.length_singleton, ← map_push] at later
    rw [List.length_cons, List.cons_append, keywordFrom, item_append, Checked.ok_bind, Token.splitKeyword]
    cases token.kind with
    | keyword word =>
      have closes : (some word == closer? || (closer?.isNone && word == target)) = (word == closer?.getD target) := by
        cases closer? <;> simp
      dsimp only
      rw [closes]
      split
      · rfl
      · split
        · exact further (depth + 1)
        · split
          · exact further (depth - 1)
          · exact further depth
    | _ => exact further depth

/-- **The reserved word that is meant is found where the window is cut.** -/
theorem findKeyword_eq (views : cursor.Views window) (target opener : Keyword) (closer? : Option Keyword) :
    findKeyword cursor cursor.index target opener closer? =
      .ok ((Token.splitKeyword target opener (closer?.getD target) 0 window.tokens).map fun cut =>
        cursor.index + cut.inside.length) := by
  rw [findKeyword, views.length]
  obtain ⟨done, after, rfl, -, -⟩ := views
  exact keywordFrom_eq target opener closer? 0 done window.tokens after

theorem firstKind_eq (kind : Token.Kind) (done own after : List Token) :
    Checked.firstIndex (fun index => do
        let token ← Checked.item (done ++ (own ++ after)) index
        return token.kind == kind) own.length done.length =
      .ok ((Token.splitKind kind own).map fun cut => done.length + cut.inside.length) := by
  induction own generalizing done with
  | nil => rfl
  | cons token own step =>
    have later := step (done ++ [token])
    rw [List.append_assoc, List.singleton_append, List.length_append, List.length_singleton, ← map_push] at later
    rw [List.length_cons, List.cons_append, Checked.firstIndex, item_append, Checked.ok_bind, Token.splitKind]
    simp only [Checked.pure_eq, Checked.ok_bind]
    split
    · rfl
    · exact later

/-- **The first token of a kind is found where the window is cut.** -/
theorem findKind_eq (views : cursor.Views window) (kind : Token.Kind) :
    findKind cursor kind = .ok ((Token.splitKind kind window.tokens).map fun cut => cursor.index + cut.inside.length) := by
  rw [findKind, views.length]
  obtain ⟨done, after, rfl, -, -⟩ := views
  exact firstKind_eq kind done window.tokens after

end Cuts

/-! ## Parts -/

/-- Between two indices lie the tokens of a window, all of them among the given ones. -/
def Sees (tokens all : List Token) (range : Nat × Nat) (window : Window) : Prop :=
  (Cursor.mk tokens range.1 range.2).Views window ∧ window.tokens.Sublist all

section Parts

variable {tokens all more : List Token} {range : Nat × Nat} {window : Window}

theorem Sees.mono (sees : Sees tokens all range window) (among : all.Sublist more) : Sees tokens more range window :=
  ⟨sees.1, sees.2.trans among⟩

theorem sees_around {done own after all : List Token} (enclosed : ∀ token ∈ all, token.Enclosed) (among : own.Sublist all) :
    Sees (done ++ (own ++ after)) all (done.length, done.length + own.length) ⟨lineBefore done (own ++ after), own⟩ :=
  ⟨⟨done, after, rfl, rfl, fun token member => enclosed token (among.subset member)⟩, among⟩

/-- What is seen up to a token and with it. -/
theorem sees_through {done own rest all : List Token} {previous : Token} (enclosed : ∀ token ∈ all, token.Enclosed)
    (among : (own ++ [previous]).Sublist all) :
    Sees (done ++ (own ++ previous :: rest)) all (done.length, done.length + own.length + 1)
      ⟨lineBefore done (own ++ previous :: rest), own ++ [previous]⟩ := by
  have sees : Sees (done ++ (own ++ [previous] ++ rest)) all (done.length, done.length + (own ++ [previous]).length) _ :=
    sees_around enclosed among
  simpa [Nat.add_assoc] using sees

/-- The number of open brackets after a token. -/
def depthPast (token : Token) (depth : Nat) : Nat :=
  match token.kind with
  | .openBracket | .openCurly => depth + 1
  | .closeBracket | .closeCurly => depth - 1
  | _ => depth

theorem splitOutside_cons (separator : Token.Kind) (depth before : Nat) (token : Token) (rest : List Token) :
    Window.splitFrom separator depth before (token :: rest) =
      if token.kind == separator && depth == 0 then ⟨before, []⟩ :: Window.splitFrom separator 0 token.line rest
      else Window.pushFirst before token (Window.splitFrom separator (depthPast token depth) before rest) := rfl

theorem partsFrom_cons {separator : Token.Kind} (plain : separator = .comma ∨ separator = .operator .cons) {done rest : List Token}
    {token : Token} (count depth start : Nat) :
    partsFrom (done ++ token :: rest) separator (count + 1) depth start done.length =
      if token.kind == separator && depth == 0 then do
        let others ← partsFrom (done ++ token :: rest) separator count depth (done.length + 1) (done.length + 1)
        return (start, done.length) :: others
      else partsFrom (done ++ token :: rest) separator count (depthPast token depth) start (done.length + 1) := by
  rw [partsFrom, item_append, Checked.ok_bind, depthPast]
  rcases plain with rfl | rfl
  all_goals
    cases token.kind with
    | _ => simp

/-- The parts of the tokens that are left, the first of which goes on with `own`. -/
theorem partsFrom_eq {separator : Token.Kind} (plain : separator = .comma ∨ separator = .operator .cons) (depth : Nat)
    (done own rest after : List Token) (enclosed : ∀ token ∈ own ++ rest, token.Enclosed) :
    ∃ part more ranges,
      Window.splitFrom separator depth (lineBefore done (own ++ (rest ++ after))) rest =
        ⟨lineBefore done (own ++ (rest ++ after)), part⟩ :: more ∧
      partsFrom (done ++ (own ++ (rest ++ after))) separator rest.length depth done.length (done.length + own.length) = .ok ranges ∧
      List.Forall₂ (Sees (done ++ (own ++ (rest ++ after))) (own ++ rest)) ranges
        (⟨lineBefore done (own ++ (rest ++ after)), own ++ part⟩ :: more) := by
  induction rest generalizing depth done own with
  | nil =>
    refine ⟨[], [], [(done.length, done.length + own.length)], rfl, rfl, .cons ?_ .nil⟩
    rw [List.append_nil] at enclosed ⊢
    exact sees_around enclosed (List.Sublist.refl own)
  | cons token rest step =>
    have place : done.length + own.length = (done ++ own).length := by simp
    have whole : done ++ (own ++ (token :: rest ++ after)) = done ++ own ++ token :: (rest ++ after) := by simp
    rw [whole, List.length_cons, place, partsFrom_cons plain, splitOutside_cons]
    split
    · rename_i separates
      have outside : depth = 0 := by simp_all
      subst outside
      obtain ⟨part, more, ranges, parts, read, sees⟩ := step 0 (done ++ own ++ [token]) [] fun other member =>
        enclosed other (by simp_all)
      have line : lineBefore (done ++ own ++ [token]) ([] ++ (rest ++ after)) = token.line := lineBefore_push _ _ _
      rw [line] at parts sees
      have same : done ++ own ++ [token] ++ ([] ++ (rest ++ after)) = done ++ own ++ token :: (rest ++ after) := by simp
      rw [same] at read sees
      simp only [List.length_append, List.length_singleton, List.length_nil, Nat.add_zero] at read
      refine ⟨[], ⟨token.line, part⟩ :: more, (done.length, done.length + own.length) :: ranges, by rw [parts], ?_, .cons ?_ ?_⟩
      · rw [List.length_append, read]
        rfl
      · rw [← whole, List.append_nil]
        exact sees_around enclosed (List.sublist_append_left _ _)
      · exact sees.imp fun range window sees => sees.mono (by simp)
    · obtain ⟨part, more, ranges, parts, read, sees⟩ := step (depthPast token depth) done (own ++ [token]) fun other member =>
        enclosed other (by simp_all)
      have same : own ++ [token] ++ (rest ++ after) = own ++ (token :: rest ++ after) := by simp
      rw [same] at parts read sees
      refine ⟨token :: part, more, ranges, by rw [parts]; rfl, ?_, ?_⟩
      · rw [← whole, ← read]
        simp [Nat.add_assoc]
      · rw [← whole]
        simpa using sees

/-- **The parts that a separator makes are found where the window is split.** -/
theorem parts_eq {separator : Token.Kind} (plain : separator = .comma ∨ separator = .operator .cons) {cursor : Cursor}
    (views : cursor.Views window) :
    ∃ ranges, parts cursor.tokens cursor.index cursor.stop separator = .ok ranges ∧
      List.Forall₂ (Sees cursor.tokens window.tokens) ranges (window.splitOutside separator) := by
  rw [parts, views.length]
  obtain ⟨done, after, rfl, before, enclosed⟩ := views
  obtain ⟨part, more, ranges, parts, read, sees⟩ := partsFrom_eq plain 0 done [] window.tokens after enclosed
  refine ⟨ranges, read, ?_⟩
  rw [Window.splitOutside, before]
  exact parts ▸ sees

/-! ## Lines -/

/-- Behind another token it is looked up whether one starts a line. -/
theorem startsLine_eq (done rest : List Token) (previous token : Token) :
    startsLine (done ++ previous :: token :: rest) (done.length + 1) = .ok (token.startsLineAfter previous) := by
  rw [startsLine, if_neg (by simp), Checked.minus_one, Checked.ok_bind, item_append, Checked.ok_bind, item_append_next]
  rfl

end Parts

end Indexed

end DerwLang
