/-
**Steps of readers.**

A reader goes on from one result to the next, takes tokens off the front of its window, and cuts the rest. What is known of each
step is said here, for the rules of the grammar and for whatever is said of windows. Main facts:

* `ok_of_bind`, `forall₂_of_mapM`: readers that go on from one another, or are run one by one, give a result when each does;
* `CutsAt`: a cut has all tokens, and a token of the kind that was looked for;
* `flatMap_splitBlocks`, `flatMap_splitStarts`, `splitFrom_induction`: what windows are to the tokens that are cut into them.
-/

import DerwLang.Grammar.Declaration
import Mathlib.Data.List.Forall2

namespace DerwLang

open Grammar

/-! ## Results -/

/-- Steps give a result when each of them does. -/
theorem ok_of_bind {α β : Type} {first : Parsed α} {second : α → Parsed β} {value : β}
    (read : first >>= second = .ok value) : ∃ found, first = .ok found ∧ second found = .ok value := by
  cases first with
  | error error => cases read
  | ok found => exact ⟨found, rfl, read⟩

theorem ok_of_map {α β : Type} {first : Parsed α} {change : α → β} {value : β} (read : change <$> first = .ok value) :
    ∃ found, first = .ok found ∧ change found = value := by
  cases first with
  | error error => cases read
  | ok found => exact ⟨found, rfl, Except.ok.inj read⟩

/-- Results that are read together are read one by one. -/
theorem forall₂_of_mapM {α β : Type} {read : α → Parsed β} {inputs : List α} {values : List β}
    (all : inputs.mapM read = .ok values) : List.Forall₂ (fun input value => read input = .ok value) inputs values := by
  induction inputs generalizing values with
  | nil =>
    obtain rfl : [] = values := Except.ok.inj all
    exact .nil
  | cons input rest step =>
    rw [List.mapM_cons] at all
    obtain ⟨value, first, all⟩ := ok_of_bind all
    obtain ⟨others, later, all⟩ := ok_of_bind all
    obtain rfl := Except.ok.inj all
    exact .cons first (step later)

theorem length_of_mapM {α β : Type} {read : α → Parsed β} {inputs : List α} {values : List β}
    (all : inputs.mapM read = .ok values) : values.length = inputs.length :=
  (forall₂_of_mapM all).length_eq.symm

/-- What holds of each result holds of all of them. -/
theorem forall_right_of_forall₂ {α β : Type} {R : α → β → Prop} {P : β → Prop} {inputs : List α} {values : List β}
    (related : List.Forall₂ R inputs values) (each : ∀ input ∈ inputs, ∀ value, R input value → P value) :
    ∀ value ∈ values, P value := by
  induction related with
  | nil => simp
  | cons first _ step =>
    rw [List.forall_mem_cons] at each ⊢
    exact ⟨each.1 _ first, step each.2⟩

/-- Each of the inputs has a result. -/
theorem exists_right_of_forall₂ {α β : Type} {R : α → β → Prop} {inputs : List α} {values : List β}
    (related : List.Forall₂ R inputs values) : ∀ input ∈ inputs, ∃ value, R input value := by
  induction related with
  | nil => simp
  | cons first _ step => exact List.forall_mem_cons.mpr ⟨⟨_, first⟩, step⟩

/-- What holds of each result holds of all that are read together. -/
theorem forall_of_mapM {α β : Type} {P : β → Prop} {read : α → Parsed β} {inputs : List α} {values : List β}
    (all : inputs.mapM read = .ok values) (each : ∀ input ∈ inputs, ∀ value, read input = .ok value → P value) :
    ∀ value ∈ values, P value :=
  forall_right_of_forall₂ (forall₂_of_mapM all) each

/-! ## Tokens in front -/

/-- Names are taken off the front. -/
theorem tokens_of_namesFrom {before : Nat} {tokens : List Token} {names : List String} {ending : Window}
    (taken : Window.namesFrom before tokens = (names, ending)) :
    ∃ own, tokens = own ++ ending.tokens ∧ own.map Token.body = names ∧ ∀ token ∈ own, token.kind = .identifier := by
  induction tokens generalizing before names with
  | nil =>
    obtain ⟨rfl, rfl⟩ := Prod.mk.inj taken
    exact ⟨[], rfl, rfl, by simp⟩
  | cons token rest step =>
    rw [Window.namesFrom] at taken
    split at taken
    · rename_i isName
      obtain ⟨rfl, same⟩ := Prod.mk.inj taken
      obtain ⟨own, whole, bodies, areNames⟩ := step (Prod.ext rfl same)
      exact ⟨token :: own, by rw [whole]; rfl, by rw [List.map_cons, bodies],
        List.forall_mem_cons.mpr ⟨by simpa using isName, areNames⟩⟩
    · obtain ⟨rfl, rfl⟩ := Prod.mk.inj taken
      exact ⟨[], rfl, rfl, by simp⟩

/-- The required token is taken off the front. -/
theorem tokens_of_expect {window ending : Window} {kind : Token.Kind} {place : Requirement} {token : Token}
    (read : window.expect kind place = .ok (token, ending)) :
    window.tokens = token :: ending.tokens ∧ token.kind = kind := by
  rw [Window.expect] at read
  split at read
  · simp [Window.error] at read
  · rename_i first rest tokens
    split at read
    · rename_i same
      obtain ⟨rfl, rfl⟩ := Prod.mk.inj (Except.ok.inj read)
      exact ⟨tokens, by simpa using same⟩
    · simp [Window.error] at read

/-- The names ahead are the tokens in front. -/
theorem tokens_of_takeNames (window : Window) :
    ∃ own, window.tokens = own ++ window.takeNames.2.tokens ∧ own.map Token.body = window.takeNames.1 ∧
      ∀ token ∈ own, token.kind = .identifier :=
  tokens_of_namesFrom (show Window.namesFrom window.before window.tokens = (window.takeNames.1, window.takeNames.2) from rfl)

theorem tokens_of_loneName {window : Window} {name : String} (lone : loneName? window = some name) :
    ∃ token, window.tokens = [token] ∧ token.kind = .identifier ∧ token.body = name := by
  rw [loneName?] at lone
  split at lone
  · rename_i token tokens
    split at lone
    · rename_i isName
      exact ⟨token, tokens, beq_iff_eq.mp isName, Option.some.inj lone⟩
    · simp at lone
  · simp at lone

/-- A window that may end has no tokens. -/
theorem tokens_of_expectEnd {window : Window} {construct : Construct} {result : Unit}
    (ended : window.expectEnd construct = .ok result) : window.tokens = [] := by
  obtain ⟨before, tokens⟩ := window
  cases tokens with
  | nil => rfl
  | cons token rest => simp [Window.expectEnd, Window.error] at ended

/-! ## Cuts -/

theorem kind_of_splitClose {opening closing : Token.Kind} {depth : Nat} {tokens : List Token} {cut : Cut}
    (found : Token.splitClose opening closing depth tokens = some cut) : cut.token.kind = closing := by
  fun_induction Token.splitClose opening closing depth tokens generalizing cut <;> simp_all
  all_goals
    obtain ⟨inner, smaller, rfl⟩ := found
    simp_all [Cut.push]

theorem kind_of_splitKeyword {target opener closer : Keyword} {depth : Nat} {tokens : List Token} {cut : Cut}
    (found : Token.splitKeyword target opener closer depth tokens = some cut) :
    cut.token.kind = .keyword target := by
  fun_induction Token.splitKeyword target opener closer depth tokens generalizing cut <;> simp_all
  all_goals
    obtain ⟨inner, smaller, rfl⟩ := found
    simp_all [Cut.push]

theorem kind_of_splitKind {kind : Token.Kind} {tokens : List Token} {cut : Cut}
    (found : Token.splitKind kind tokens = some cut) : cut.token.kind = kind := by
  fun_induction Token.splitKind kind tokens generalizing cut with
  | case1 => simp at found
  | case2 token rest same =>
    obtain rfl := Option.some.inj found
    simpa using same
  | case3 token rest other step =>
    obtain ⟨inner, smaller, rfl⟩ := Option.map_eq_some_iff.mp found
    exact @step inner smaller

theorem kind_of_splitDefinition {name : String} {previous : Token} {tokens : List Token} {cut : Cut}
    (found : Token.splitDefinition name previous tokens = some cut) : cut.token.kind = .identifier := by
  fun_induction Token.splitDefinition name previous tokens generalizing cut with
  | case1 => simp at found
  | case2 previous token rest defines =>
    obtain rfl := Option.some.inj found
    simp only [Bool.and_eq_true, beq_iff_eq] at defines
    exact defines.1.1
  | case3 previous token rest other step =>
    obtain ⟨inner, smaller, rfl⟩ := Option.map_eq_some_iff.mp found
    exact @step inner smaller

/-- A cut of the tokens at a token of a kind. -/
structure CutsAt (kind : Token.Kind) (tokens : List Token) (cut : Cut) : Prop where
  whole : cut.all = tokens
  kind : cut.token.kind = kind

theorem cutsAt_splitClose {opening closing : Token.Kind} {depth : Nat} {tokens : List Token} {cut : Cut}
    (found : Token.splitClose opening closing depth tokens = some cut) : CutsAt closing tokens cut :=
  ⟨Token.splitClose_eq found, kind_of_splitClose found⟩

theorem cutsAt_splitKeyword {target opener closer : Keyword} {depth : Nat} {tokens : List Token} {cut : Cut}
    (found : Token.splitKeyword target opener closer depth tokens = some cut) : CutsAt (.keyword target) tokens cut :=
  ⟨Token.splitKeyword_eq found, kind_of_splitKeyword found⟩

theorem cutsAt_splitKind {kind : Token.Kind} {tokens : List Token} {cut : Cut}
    (found : Token.splitKind kind tokens = some cut) : CutsAt kind tokens cut :=
  ⟨Token.splitKind_eq found, kind_of_splitKind found⟩

theorem cutsAt_splitDefinition {name : String} {previous : Token} {tokens : List Token} {cut : Cut}
    (found : Token.splitDefinition name previous tokens = some cut) : CutsAt .identifier tokens cut :=
  ⟨Token.splitDefinition_eq found, kind_of_splitDefinition found⟩

/-- What is known of all tokens is known of the pieces of a cut. -/
theorem forall_cut {P : Token → Prop} {tokens : List Token} {cut : Cut} (whole : cut.all = tokens)
    (all : ∀ token ∈ tokens, P token) :
    (∀ token ∈ cut.inside, P token) ∧ P cut.token ∧ ∀ token ∈ cut.after, P token := by
  rw [← whole, Cut.all] at all
  obtain ⟨inside, rest⟩ := List.forall_mem_append.mp all
  exact ⟨inside, List.forall_mem_cons.mp rest⟩

/-! ## Windows -/

theorem sublist_of_mem {windows : List Window} {window : Window} (member : window ∈ windows) :
    window.tokens.Sublist (windows.flatMap Window.tokens) :=
  List.sublist_flatten_of_mem (List.mem_map_of_mem member)

/-- What is known of all tokens is known of those of each window that they are cut into. -/
theorem forall_windows {P : Token → Prop} {windows : List Window} {tokens : List Token}
    (among : (windows.flatMap Window.tokens).Sublist tokens) (all : ∀ token ∈ tokens, P token) :
    ∀ window ∈ windows, ∀ token ∈ window.tokens, P token :=
  fun _ member token own => all token (((sublist_of_mem member).trans among).subset own)

theorem flatMap_pushFirst (before : Nat) (token : Token) (windows : List Window) :
    (Window.pushFirst before token windows).flatMap Window.tokens = token :: windows.flatMap Window.tokens := by
  cases windows <;> rfl

theorem flatMap_blocksFrom (column : Nat) (opened : Opened) (before : Nat) (previous : Token) (rest : List Token) :
    (blocksFrom column opened before previous rest).flatMap Window.tokens = previous :: rest := by
  fun_induction blocksFrom column opened before previous rest with
  | case1 => rfl
  | case2 opened before previous token rest starts step => rw [List.flatMap_cons, step, List.singleton_append]
  | case3 opened before previous token rest stays step => rw [flatMap_pushFirst, step]

/-- The declarations in a window make up its tokens. -/
theorem flatMap_splitBlocks (window : Window) : (splitBlocks window).flatMap Window.tokens = window.tokens := by
  obtain ⟨before, tokens⟩ := window
  cases tokens with
  | nil => rfl
  | cons first rest => exact flatMap_blocksFrom _ _ _ _ _

/-- What is known of all tokens is known of the windows of declarations. -/
theorem forall_splitBlocks {P : Token → Prop} {window : Window} (all : ∀ token ∈ window.tokens, P token) :
    ∀ part ∈ splitBlocks window, ∀ token ∈ part.tokens, P token :=
  forall_windows (by rw [flatMap_splitBlocks]) all

theorem blocksFrom_ne_nil (column : Nat) (opened : Opened) (before : Nat) (previous : Token) (rest : List Token) :
    blocksFrom column opened before previous rest ≠ [] := by
  intro none_
  have all := flatMap_blocksFrom column opened before previous rest
  rw [none_] at all
  exact List.cons_ne_nil _ _ all.symm

/-- The windows of branches have all tokens. -/
theorem flatMap_splitStarts (column before : Nat) (token : Token) (rest : List Token) :
    (Window.splitStarts column before token rest).flatMap Window.tokens = token :: rest := by
  fun_induction Window.splitStarts column before token rest with
  | case1 => rfl
  | case2 before token next rest starts step => rw [List.flatMap_cons, step]; rfl
  | case3 before token next rest stays step => rw [flatMap_pushFirst, step]

/-- What is known of all tokens is known of the windows of branches. -/
theorem forall_splitStarts {P : Token → Prop} {token : Token} {rest : List Token} (all : ∀ other ∈ token :: rest, P other)
    (column before : Nat) : ∀ window ∈ Window.splitStarts column before token rest, ∀ other ∈ window.tokens, P other :=
  forall_windows (by rw [flatMap_splitStarts]) all

theorem splitStarts_ne_nil (column before : Nat) (token : Token) (rest : List Token) :
    Window.splitStarts column before token rest ≠ [] := by
  intro none_
  have all := flatMap_splitStarts column before token rest
  rw [none_] at all
  exact List.cons_ne_nil _ _ all.symm

/-- Tokens and the windows between separators: they are one window, or they are cut at a separator. -/
inductive Separated (separator : Token.Kind) : List Token → List Window → Prop
  | single (before : Nat) (tokens : List Token) : Separated separator tokens [⟨before, tokens⟩]
  | cut (before : Nat) {cut : Cut} {windows : List Window} (isSeparator : cut.token.kind = separator)
    (later : Separated separator cut.after windows) : Separated separator cut.all (⟨before, cut.inside⟩ :: windows)

/-- **The windows between separators outside brackets** are so separated. -/
theorem separated_splitFrom (separator : Token.Kind) (depth before : Nat) (tokens : List Token) :
    Separated separator tokens (Window.splitFrom separator depth before tokens) := by
  fun_induction Window.splitFrom separator depth before tokens with
  | case1 => exact .single _ _
  | case2 depth before token rest isSeparator step =>
    rw [Bool.and_eq_true, beq_iff_eq] at isSeparator
    exact @Separated.cut _ before ⟨[], token, rest⟩ _ isSeparator.1 step
  | case3 depth before token rest other inner step =>
    generalize Window.splitFrom separator inner before rest = windows at step
    cases step with
    | single => exact .single _ _
    | @cut before cut _ isSeparator later => exact @Separated.cut _ before (cut.push token) _ isSeparator later

namespace Separated

variable {separator : Token.Kind} {tokens : List Token} {windows : List Window}

theorem ne_nil (separated : Separated separator tokens windows) : windows ≠ [] := by
  cases separated <;> exact List.cons_ne_nil _ _

/-- Windows between separators lack the separators. -/
theorem sublist (separated : Separated separator tokens windows) : (windows.flatMap Window.tokens).Sublist tokens := by
  induction separated with
  | single before tokens => simp
  | @cut before cut windows isSeparator later step => exact (List.Sublist.refl cut.inside).append (step.cons cut.token)

/-- What holds of separators and of all tokens between them holds of all tokens. -/
theorem forall_tokens {P : Token → Prop} (separated : Separated separator tokens windows)
    (separates : ∀ token : Token, token.kind = separator → P token)
    (each : ∀ window ∈ windows, ∀ token ∈ window.tokens, P token) :
    ∀ token ∈ tokens, P token := by
  induction separated with
  | single before tokens => exact each _ (List.mem_singleton_self _)
  | cut before isSeparator later step =>
    obtain ⟨inside, others⟩ := List.forall_mem_cons.mp each
    exact List.forall_mem_append.mpr ⟨inside, List.forall_mem_cons.mpr ⟨separates _ isSeparator, step others⟩⟩

end Separated

end DerwLang
