/-
**A text that stands further down.**

Readers compare the lines of tokens, to tell which token starts a line, and blame lines, to say where a text does not parse.
They do nothing else with them. So tokens that stand `count` lines further down (`lowered`) are cut into windows in the same
places, and two readings of them go side by side (`Lowers`): both give a result, and the same one, or both fail for the same
cause, the second `count` lines further down. One pass over the readers tells two things at once:

* whatever the count is, the line that is blamed is one of the tokens' own (`On`);
* where a text stands makes no difference to what is read.

Two causes are no part of this: a range without a bound and a signature without a type are blamed on the first line, wherever
they stand (`ParseError.Cause.isUnplaced`).
-/

import DerwLang.Grammar.Module
import DerwLang.Proofs.Lexing.Position
import Mathlib.Data.Set.Basic

namespace DerwLang

open Grammar

/-! ## Tokens -/

namespace Token

/-- The token `count` lines further down. -/
def lowered (count : Nat) (token : Token) : Token :=
  { token with line := token.line + count }

/-- All lines that the token's text goes over are among the given ones. -/
def On (lines : Set Nat) (token : Token) : Prop :=
  ∀ offset ≤ token.body.toList.count '\n', token.line + offset ∈ lines

variable {lines : Set Nat} {count : Nat} {token previous : Token}

theorem On.line (on : token.On lines) : token.line ∈ lines :=
  on 0 (Nat.zero_le _)

@[simp] theorem kind_lowered : (token.lowered count).kind = token.kind := rfl

@[simp] theorem body_lowered : (token.lowered count).body = token.body := rfl

@[simp] theorem line_lowered : (token.lowered count).line = token.line + count := rfl

@[simp] theorem column_lowered : (token.lowered count).column = token.column := rfl

@[simp] theorem startsLineAfter_lowered :
    (token.lowered count).startsLineAfter (previous.lowered count) = token.startsLineAfter previous := by
  unfold startsLineAfter endLine
  rw [line_lowered, line_lowered, body_lowered, Nat.add_right_comm]
  exact decide_eq_decide.mpr Nat.add_lt_add_iff_right

theorem text_lowered (tokens : List Token) : text (tokens.map (lowered count)) = text tokens := by
  unfold text
  rw [List.map_map]
  rfl

theorem significant_lowered (tokens : List Token) :
    significant (tokens.map (lowered count)) = (significant tokens).map (lowered count) := by
  unfold significant
  rw [List.filter_map]
  rfl

theorem place_lowered (line column : Nat) (lexemes : List Lexeme) :
    place ⟨line + count, column⟩ lexemes = (place ⟨line, column⟩ lexemes).map (lowered count) := by
  induction lexemes generalizing line column with
  | nil => rfl
  | cons lexeme more step =>
    have ending : ∀ start, Position.after ⟨start, column⟩ lexeme.chars =
        ⟨Text.lineAfter start (String.ofList lexeme.chars), Text.columnAfter column (String.ofList lexeme.chars)⟩ := by
      intro start
      rw [← after_eq ⟨start, column⟩, String.toList_ofList]
    have further : Text.lineAfter (line + count) (String.ofList lexeme.chars) =
        Text.lineAfter line (String.ofList lexeme.chars) + count := by
      unfold Text.lineAfter
      omega
    rw [place, place, List.map_cons, ending, ending, further, step]
    rfl

end Token

/-- **A text is read from further down as the same tokens further down.** -/
theorem tokenizeAt_lowered (source : String) (line column count : Nat) :
    tokenizeAt source (line + count) column = (tokenizeAt source line column).map (Token.lowered count) :=
  Token.place_lowered line column _

/-- The tokens of what stands between the ends of a token lie on the lines of that token. -/
theorem on_interior {lines : Set Nat} {literal : Token} (on : literal.On lines) (column : Nat) :
    ∀ token ∈ tokenizeAt (unquote literal.body) literal.line column, token.On lines := by
  intro token member offset inside
  obtain ⟨front, back, split⟩ := List.append_of_mem member
  have whole := text_tokenizeAt (unquote literal.body) literal.line column
  rw [split, Token.text_append, Token.text_cons] at whole
  have fewer : (unquote literal.body).toList.count '\n' ≤ literal.body.toList.count '\n' := by
    rw [unquote, String.toList_ofList]
    exact ((List.dropLast_sublist _).trans (List.drop_sublist _ _)).count_le _
  rw [← whole, String.toList_append, String.toList_append, List.count_append, List.count_append] at fewer
  rw [(position_of_split split).1, Text.lineAfter, Nat.add_assoc]
  exact on _ (by omega)

/-! ## Windows -/

namespace Window

/-- The window `count` lines further down. -/
def lowered (count : Nat) (window : Window) : Window :=
  ⟨window.before + count, window.tokens.map (Token.lowered count)⟩

/-- All lines that a window knows of are among the given ones. -/
structure On (lines : Set Nat) (window : Window) : Prop where
  before : window.before ∈ lines
  tokens : ∀ token ∈ window.tokens, token.On lines

variable {lines : Set Nat} {count : Nat} {window : Window}

theorem on_mk {before : Nat} {tokens : List Token} (known : before ∈ lines) (each : ∀ token ∈ tokens, token.On lines) :
    Window.On lines ⟨before, tokens⟩ :=
  ⟨known, each⟩

theorem nextKind_lowered : (window.lowered count).nextKind = window.nextKind := by
  obtain ⟨before, tokens⟩ := window
  cases tokens <;> rfl

theorem found_lowered : (window.lowered count).found = window.found := by
  obtain ⟨before, tokens⟩ := window
  cases tokens <;> rfl

theorem line_lowered : (window.lowered count).line = window.line + count := by
  obtain ⟨before, tokens⟩ := window
  cases tokens <;> rfl

theorem On.line (on : window.On lines) : window.line ∈ lines := by
  obtain ⟨before, tokens⟩ := window
  cases tokens with
  | nil => exact on.before
  | cons token rest => exact (on.tokens token List.mem_cons_self).line

theorem finished_lowered : (window.lowered count).finished = window.finished.lowered count := by
  obtain ⟨before, tokens⟩ := window
  unfold finished lowered
  rw [List.getLast?_map]
  cases tokens.getLast? <;> rfl

theorem On.finished (on : window.On lines) : window.finished.On lines := by
  refine ⟨?_, by simp [Window.finished]⟩
  unfold Window.finished
  cases last : window.tokens.getLast? with
  | none => exact on.before
  | some token => exact (on.tokens token (List.mem_of_getLast? last)).line

theorem tail_lowered :
    (⟨(window.lowered count).line, (window.lowered count).tokens.tail⟩ : Window) =
      Window.lowered count ⟨window.line, window.tokens.tail⟩ := by
  rw [line_lowered, lowered, lowered, List.map_tail]

theorem On.tail (on : window.On lines) : Window.On lines ⟨window.line, window.tokens.tail⟩ :=
  ⟨on.line, fun token member => on.tokens token (List.mem_of_mem_tail member)⟩

end Window

/-! ## Cuts -/

section Cuts

variable {lines : Set Nat} {count : Nat}

/-- The cut `count` lines further down. -/
def Cut.lowered (count : Nat) (cut : Cut) : Cut :=
  ⟨cut.inside.map (Token.lowered count), cut.token.lowered count, cut.after.map (Token.lowered count)⟩

theorem Cut.map_lowered_push (token : Token) (cut? : Option Cut) :
    (cut?.map (Cut.push token)).map (Cut.lowered count) = (cut?.map (Cut.lowered count)).map (Cut.push (token.lowered count)) := by
  cases cut? <;> rfl

/-- What is known of all tokens is known of the parts of a cut. -/
theorem Cut.forall_of_all {P : Token → Prop} {tokens : List Token} {cut : Cut} (whole : cut.all = tokens)
    (each : ∀ token ∈ tokens, P token) :
    (∀ token ∈ cut.inside, P token) ∧ P cut.token ∧ ∀ token ∈ cut.after, P token := by
  rw [← whole, Cut.all, List.forall_mem_append, List.forall_mem_cons] at each
  exact each

theorem splitClose_lowered (opening closing : Token.Kind) (depth : Nat) (tokens : List Token) :
    Token.splitClose opening closing depth (tokens.map (Token.lowered count)) =
      (Token.splitClose opening closing depth tokens).map (Cut.lowered count) := by
  fun_induction Token.splitClose opening closing depth tokens with
  | case1 => rfl
  | case2 depth token rest opens step => simp only [List.map_cons, Token.splitClose, Token.kind_lowered, opens, step, Cut.map_lowered_push, if_true]
  | case3 token rest passes closes => simp only [List.map_cons, Token.splitClose, Token.kind_lowered, passes, closes, if_true]; rfl
  | case4 token rest passes closes depth step =>
    simp only [List.map_cons, Token.splitClose, Token.kind_lowered, passes, closes, step, Cut.map_lowered_push, if_true, if_false, Bool.false_eq_true]
  | case5 depth token rest passes other step =>
    simp only [List.map_cons, Token.splitClose, Token.kind_lowered, passes, other, step, Cut.map_lowered_push, if_false, Bool.false_eq_true]

theorem splitKeyword_lowered (target opener closer : Keyword) (depth : Nat) (tokens : List Token) :
    Token.splitKeyword target opener closer depth (tokens.map (Token.lowered count)) =
      (Token.splitKeyword target opener closer depth tokens).map (Cut.lowered count) := by
  fun_induction Token.splitKeyword target opener closer depth tokens with
  | case1 => rfl
  | case2 depth token rest word isWord found =>
    simp only [List.map_cons, Token.splitKeyword, Token.kind_lowered, isWord, found, if_true]
    rfl
  | case3 depth token rest word isWord passes inner step =>
    simp only [List.map_cons, Token.splitKeyword, Token.kind_lowered, isWord, passes, if_false, Bool.false_eq_true]
    rw [Cut.map_lowered_push, ← step]
  | case4 depth token rest noWord step =>
    rw [Cut.map_lowered_push, ← step, List.map_cons, Token.splitKeyword]
    split
    · rename_i word isWord
      exact absurd isWord (noWord word)
    · rfl

theorem splitKind_lowered (kind : Token.Kind) (tokens : List Token) :
    Token.splitKind kind (tokens.map (Token.lowered count)) = (Token.splitKind kind tokens).map (Cut.lowered count) := by
  fun_induction Token.splitKind kind tokens with
  | case1 => rfl
  | case2 token rest found =>
    rw [List.map_cons, Token.splitKind, if_pos (by exact found)]
    rfl
  | case3 token rest other step => rw [List.map_cons, Token.splitKind, if_neg (by exact other), step, Cut.map_lowered_push]

theorem splitDefinition_lowered (name : String) (previous : Token) (tokens : List Token) :
    Token.splitDefinition name (previous.lowered count) (tokens.map (Token.lowered count)) =
      (Token.splitDefinition name previous tokens).map (Cut.lowered count) := by
  fun_induction Token.splitDefinition name previous tokens with
  | case1 => rfl
  | case2 previous token rest found =>
    rw [List.map_cons, Token.splitDefinition, if_pos (by rwa [Token.startsLineAfter_lowered])]
    rfl
  | case3 previous token rest other step =>
    rw [List.map_cons, Token.splitDefinition, if_neg (by rwa [Token.startsLineAfter_lowered]), step, Cut.map_lowered_push]

end Cuts

/-! ## Parts -/

section Parts

variable {lines : Set Nat} {count : Nat}

theorem pushFirst_lowered (before : Nat) (token : Token) (windows : List Window) :
    (Window.pushFirst before token windows).map (Window.lowered count) =
      Window.pushFirst (before + count) (token.lowered count) (windows.map (Window.lowered count)) := by
  cases windows <;> rfl

theorem on_pushFirst {before : Nat} {token : Token} {windows : List Window} (known : before ∈ lines) (own : token.On lines)
    (each : ∀ window ∈ windows, window.On lines) :
    ∀ window ∈ Window.pushFirst before token windows, window.On lines := by
  cases windows with
  | nil => simpa [Window.pushFirst] using Window.on_mk known (List.forall_mem_singleton.mpr own)
  | cons window more =>
    rw [List.forall_mem_cons] at each
    rw [Window.pushFirst, List.forall_mem_cons]
    exact ⟨⟨each.1.before, List.forall_mem_cons.mpr ⟨own, each.1.tokens⟩⟩, each.2⟩

theorem splitFrom_lowered (separator : Token.Kind) (depth before : Nat) (tokens : List Token) :
    Window.splitFrom separator depth (before + count) (tokens.map (Token.lowered count)) =
      (Window.splitFrom separator depth before tokens).map (Window.lowered count) := by
  fun_induction Window.splitFrom separator depth before tokens with
  | case1 => rfl
  | case2 depth before token rest isSeparator step =>
    rw [List.map_cons, Window.splitFrom, if_pos (by simpa using isSeparator), Token.line_lowered, step]
    rfl
  | case3 depth before token rest other inner step =>
    rw [List.map_cons, Window.splitFrom, if_neg (by simpa using other), pushFirst_lowered, ← step]
    rfl

theorem on_splitFrom {tokens : List Token} {before : Nat} (separator : Token.Kind) (depth : Nat) (known : before ∈ lines)
    (each : ∀ token ∈ tokens, token.On lines) :
    ∀ window ∈ Window.splitFrom separator depth before tokens, window.On lines := by
  fun_induction Window.splitFrom separator depth before tokens with
  | case1 => simpa using Window.on_mk known each
  | case2 depth before token rest isSeparator step =>
    rw [List.forall_mem_cons] at each
    rw [List.forall_mem_cons]
    exact ⟨⟨known, by simp⟩, step each.1.line each.2⟩
  | case3 depth before token rest other inner step =>
    rw [List.forall_mem_cons] at each
    exact on_pushFirst known each.1 (step known each.2)

theorem splitOutside_lowered (window : Window) (separator : Token.Kind) :
    (window.lowered count).splitOutside separator = (window.splitOutside separator).map (Window.lowered count) :=
  splitFrom_lowered _ _ _ _

theorem Window.On.splitOutside {window : Window} (on : window.On lines) (separator : Token.Kind) :
    ∀ part ∈ window.splitOutside separator, part.On lines :=
  on_splitFrom _ _ on.before on.tokens

theorem splitStarts_lowered (column before : Nat) (token : Token) (rest : List Token) :
    Window.splitStarts column (before + count) (token.lowered count) (rest.map (Token.lowered count)) =
      (Window.splitStarts column before token rest).map (Window.lowered count) := by
  fun_induction Window.splitStarts column before token rest with
  | case1 => rfl
  | case2 before token next rest starts step =>
    rw [List.map_cons, Window.splitStarts, if_pos (by rwa [Token.startsLineAfter_lowered]), Token.line_lowered, step]
    rfl
  | case3 before token next rest stays step =>
    rw [List.map_cons, Window.splitStarts, if_neg (by rwa [Token.startsLineAfter_lowered]), pushFirst_lowered,
      ← step]

theorem on_splitStarts {before : Nat} {token : Token} {rest : List Token} (column : Nat) (known : before ∈ lines)
    (each : ∀ other ∈ token :: rest, other.On lines) :
    ∀ window ∈ Window.splitStarts column before token rest, window.On lines := by
  fun_induction Window.splitStarts column before token rest with
  | case1 => simpa using Window.on_mk known each
  | case2 before token next rest starts step =>
    rw [List.forall_mem_cons] at each
    rw [List.forall_mem_cons]
    exact ⟨⟨known, by simpa using each.1⟩, step each.1.line each.2⟩
  | case3 before token next rest stays step =>
    rw [List.forall_mem_cons] at each
    exact on_pushFirst known each.1 (step known each.2)

theorem startsBlock_lowered (column : Nat) (opened : Opened) (previous token : Token) :
    startsBlock column { opened with head := opened.head.lowered count } (previous.lowered count) (token.lowered count) =
      startsBlock column opened previous token := by
  unfold startsBlock Opened.announces
  rw [Token.startsLineAfter_lowered]
  rfl

theorem blocksFrom_lowered (column : Nat) (opened : Opened) (before : Nat) (previous : Token) (rest : List Token) :
    blocksFrom column { opened with head := opened.head.lowered count } (before + count) (previous.lowered count)
        (rest.map (Token.lowered count)) =
      (blocksFrom column opened before previous rest).map (Window.lowered count) := by
  fun_induction blocksFrom column opened before previous rest with
  | case1 => rfl
  | case2 opened before previous token rest starts step =>
    rw [List.map_cons, blocksFrom, if_pos (by rwa [startsBlock_lowered]), List.map_cons, ← step]
    rfl
  | case3 opened before previous token rest stays step =>
    rw [List.map_cons, blocksFrom, if_neg (by rwa [startsBlock_lowered]), pushFirst_lowered, ← step]
    rfl

theorem on_blocksFrom {opened : Opened} {before : Nat} {previous : Token} {rest : List Token} (column : Nat)
    (known : before ∈ lines) (each : ∀ other ∈ previous :: rest, other.On lines) :
    ∀ window ∈ blocksFrom column opened before previous rest, window.On lines := by
  fun_induction blocksFrom column opened before previous rest with
  | case1 => simpa using Window.on_mk known each
  | case2 opened before previous token rest starts step =>
    rw [List.forall_mem_cons] at each
    rw [List.forall_mem_cons]
    exact ⟨⟨known, by simpa using each.1⟩, step each.1.line each.2⟩
  | case3 opened before previous token rest stays step =>
    rw [List.forall_mem_cons] at each
    exact on_pushFirst known each.1 (step known each.2)

theorem splitBlocks_lowered (count : Nat) (window : Window) :
    splitBlocks (window.lowered count) = (splitBlocks window).map (Window.lowered count) := by
  obtain ⟨before, tokens⟩ := window
  cases tokens with
  | nil => rfl
  | cons first rest => exact blocksFrom_lowered first.column (.ofHead first) before first rest

theorem Window.On.splitBlocks {window : Window} (on : window.On lines) : ∀ part ∈ splitBlocks window, part.On lines := by
  obtain ⟨before, tokens⟩ := window
  cases tokens with
  | nil => simp [Grammar.splitBlocks]
  | cons first rest => exact on_blocksFrom _ on.before on.tokens

end Parts

/-! ## Results -/

/-- What is blamed on the first line when there is no token to blame. -/
def ParseError.Cause.isUnplaced : ParseError.Cause → Bool
  | .rangeBound => true
  | .type .empty => true
  | _ => false

/-- The second error has the cause of the first, which is blamed on one of the lines, and stands `count` lines further down.
What is blamed on the first line stays there. -/
inductive ParseError.Lowers (lines : Set Nat) (count : Nat) : ParseError → ParseError → Prop
  | placed (cause : ParseError.Cause) {line : Nat} (known : line ∈ lines) :
    ParseError.Lowers lines count ⟨cause, line⟩ ⟨cause, line + count⟩
  | unplaced {cause : ParseError.Cause} (isUnplaced : cause.isUnplaced = true) :
    ParseError.Lowers lines count ⟨cause, 1⟩ ⟨cause, 1⟩

/-- The second reading does what the first does: it gives a related result, or the error further down. -/
inductive Lowers (lines : Set Nat) (count : Nat) {α β : Type} (related : α → β → Prop) : Parsed α → Parsed β → Prop
  | ok {first : α} {second : β} (same : related first second) : Lowers lines count related (.ok first) (.ok second)
  | error {first second : ParseError} (same : first.Lowers lines count second) :
    Lowers lines count related (.error first) (.error second)

/-- The same value, and the window that is left further down. -/
def Left (lines : Set Nat) (count : Nat) {α : Type} (first second : α × Window) : Prop :=
  first.2.On lines ∧ second = (first.1, first.2.lowered count)

namespace Lowers

variable {lines : Set Nat} {count : Nat} {α β γ δ : Type} {related : α → β → Prop} {further : γ → δ → Prop}

/-- The same value, from both. -/
theorem value (result : α) : Lowers lines count Eq (.ok result) (.ok result) :=
  .ok rfl

theorem left (result : α) {window : Window} (on : window.On lines) :
    Lowers lines count (Left lines count) (.ok (result, window)) (.ok (result, window.lowered count)) :=
  .ok ⟨on, rfl⟩

/-- An error at a line that is known. -/
theorem blamed (cause : ParseError.Cause) {line : Nat} (known : line ∈ lines) :
    Lowers lines count related (.error ⟨cause, line⟩) (.error ⟨cause, line + count⟩) :=
  .error (.placed cause known)

/-- An error at a window. -/
theorem here {window : Window} (on : window.On lines) (cause : ParseError.Cause) :
    Lowers lines count related (window.error cause) ((window.lowered count).error cause) := by
  unfold Window.error
  rw [Window.line_lowered]
  exact .blamed cause on.line

/-- Steps go side by side when each of them does, the later ones after what the first has found. -/
theorem bind_found {first : Parsed α} {second : Parsed β} {goOn : α → Parsed γ} {goOn' : β → Parsed δ}
    (one : Lowers lines count related first second)
    (two : ∀ value other, first = .ok value → related value other → Lowers lines count further (goOn value) (goOn' other)) :
    Lowers lines count further (first >>= goOn) (second >>= goOn') := by
  cases one with
  | ok same => exact two _ _ rfl same
  | error same => exact .error same

/-- Steps go side by side when each of them does. -/
theorem bind {first : Parsed α} {second : Parsed β} {goOn : α → Parsed γ} {goOn' : β → Parsed δ}
    (one : Lowers lines count related first second)
    (two : ∀ value other, related value other → Lowers lines count further (goOn value) (goOn' other)) :
    Lowers lines count further (first >>= goOn) (second >>= goOn') :=
  one.bind_found fun value other _ same => two value other same

/-- Steps go side by side when each of them does, with what relates the first ones named. -/
theorem bind_by (related : α → β → Prop) {first : Parsed α} {second : Parsed β} {goOn : α → Parsed γ} {goOn' : β → Parsed δ}
    (one : Lowers lines count related first second)
    (two : ∀ value other, related value other → Lowers lines count further (goOn value) (goOn' other)) :
    Lowers lines count further (first >>= goOn) (second >>= goOn') :=
  one.bind two

theorem map {first : Parsed α} {second : Parsed β} {change : α → γ} {change' : β → δ}
    (one : Lowers lines count related first second) (two : ∀ value other, related value other → further (change value) (change' other)) :
    Lowers lines count further (change <$> first) (change' <$> second) := by
  cases one with
  | ok same => exact .ok (two _ _ same)
  | error same => exact .error same

/-- A test that comes out the same in both. -/
theorem ite {test : Prop} [Decidable test] {first first' : Parsed α} {second second' : Parsed β}
    (yes : test → Lowers lines count related first second) (no : ¬ test → Lowers lines count related first' second') :
    Lowers lines count related (if test then first else first') (if test then second else second') := by
  split
  · exact yes ‹test›
  · exact no ‹¬ test›

/-- Readings of many parts go side by side when those of each part do. -/
theorem mapM {inputs : List α} {move : α → β} {read : α → Parsed γ} {read' : β → Parsed γ}
    (each : ∀ input ∈ inputs, Lowers lines count Eq (read input) (read' (move input))) :
    Lowers lines count Eq (inputs.mapM read) ((inputs.map move).mapM read') := by
  induction inputs with
  | nil => exact .value []
  | cons input rest step =>
    rw [List.forall_mem_cons] at each
    rw [List.map_cons, List.mapM_cons, List.mapM_cons]
    refine each.1.bind ?_
    rintro value _ rfl
    refine (step each.2).bind ?_
    rintro values _ rfl
    exact .value _

end Lowers

/-! ## Steps that all readers take -/

section Steps

variable {lines : Set Nat} {count : Nat} {window : Window}

theorem lowers_expectEnd (on : window.On lines) (construct : Construct) :
    Lowers lines count Eq (window.expectEnd construct) ((window.lowered count).expectEnd construct) := by
  obtain ⟨before, tokens⟩ := window
  cases tokens with
  | nil => exact .value ()
  | cons token rest => exact .here on _

/-- The token that is required, and the window after it. -/
theorem lowers_expect (on : window.On lines) (kind : Token.Kind) (place : Requirement) :
    Lowers lines count (fun first second =>
        first.1.On lines ∧ first.2.On lines ∧ second = (first.1.lowered count, first.2.lowered count))
      (window.expect kind place) ((window.lowered count).expect kind place) := by
  obtain ⟨before, tokens⟩ := window
  cases tokens with
  | nil => exact .here on _
  | cons token rest =>
    obtain ⟨own, later⟩ := List.forall_mem_cons.mp on.tokens
    simp only [Window.expect, Window.lowered, List.map_cons, Token.kind_lowered]
    by_cases isKind : (token.kind == kind) = true
    · rw [if_pos isKind, if_pos isKind]
      exact .ok ⟨own, ⟨own.line, later⟩, rfl⟩
    · rw [if_neg isKind, if_neg isKind]
      exact .here on _

theorem namesFrom_lowered (before : Nat) (tokens : List Token) :
    Window.namesFrom (before + count) (tokens.map (Token.lowered count)) =
      ((Window.namesFrom before tokens).1, (Window.namesFrom before tokens).2.lowered count) := by
  fun_induction Window.namesFrom before tokens with
  | case1 => rfl
  | case2 before token rest isName names step =>
    rw [List.map_cons, Window.namesFrom, if_pos (by simpa using isName), Token.line_lowered, step]
    rfl
  | case3 before token rest noName =>
    rw [List.map_cons, Window.namesFrom, if_neg (by simpa using noName)]
    rfl

theorem takeNames_lowered (window : Window) :
    (window.lowered count).takeNames = (window.takeNames.1, window.takeNames.2.lowered count) :=
  namesFrom_lowered _ _

theorem Window.On.takeNames (on : window.On lines) : window.takeNames.2.On lines := by
  obtain ⟨before, tokens⟩ := window
  unfold Window.takeNames
  fun_induction Window.namesFrom before tokens with
  | case1 => exact on
  | case2 before token rest isName names step =>
    obtain ⟨own, later⟩ := List.forall_mem_cons.mp on.tokens
    exact step ⟨own.line, later⟩
  | case3 => exact on

end Steps

end DerwLang
