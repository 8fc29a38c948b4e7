/-
**Tokens that cuts pass over.**

A list of tokens is balanced when its brackets, its conditionals, its cases and its local definitions are complete.
Every way to cut a window looks for a token at the outermost level, and so it passes over balanced tokens:
`Balanced.splitClose`, `Balanced.complete`, `Balanced.splitFrom` and `Balanced.no_range`.
-/

import DerwLang.Grammar.Window
import Mathlib.Data.List.Basic

namespace DerwLang

/-- The kinds of tokens that take no part in how windows are cut. -/
def isPlainKind : Token.Kind → Bool
  | .identifier | .literal | .string | .formatString | .arrow | .assign | .colon | .pipe | .backslash => true
  | .operator sign => sign != .range
  | .keyword word =>
    [.defaultWord, .typeWord, .aliasWord, .importWord, .exposingWord, .asWord].contains word
  | _ => false

/-- Tokens with complete brackets and complete constructs; whether commas may stand outside of brackets is told by the
first argument. -/
inductive Balanced : Bool → List Token → Prop
  | none {commas : Bool} : Balanced commas []
  | plain {commas : Bool} {token : Token} (plain : isPlainKind token.kind = true) : Balanced commas [token]
  | comma {token : Token} (comma : token.kind = .comma) : Balanced true [token]
  | append {commas : Bool} {first second : List Token} (one : Balanced commas first)
      (two : Balanced commas second) : Balanced commas (first ++ second)
  | round {commas : Bool} {opening closing : Token} {inside : List Token}
      (opens : opening.kind = .openBracket) (closes : closing.kind = .closeBracket) (inner : Balanced true inside) :
      Balanced commas (opening :: (inside ++ [closing]))
  | curly {commas : Bool} {opening closing : Token} {inside : List Token}
      (opens : opening.kind = .openCurly) (closes : closing.kind = .closeCurly) (inner : Balanced true inside) :
      Balanced commas (opening :: (inside ++ [closing]))
  | conditional {commas : Bool} {first second third : Token} {test yes no : List Token}
      (isFirst : first.kind = .keyword .ifWord) (isSecond : second.kind = .keyword .thenWord)
      (isThird : third.kind = .keyword .elseWord) (one : Balanced false test) (two : Balanced false yes)
      (three : Balanced false no) :
      Balanced commas (first :: (test ++ second :: (yes ++ third :: no)))
  | caseOf {commas : Bool} {first second : Token} {value branches : List Token}
      (isFirst : first.kind = .keyword .caseWord) (isSecond : second.kind = .keyword .ofWord)
      (one : Balanced false value) (two : Balanced false branches) :
      Balanced commas (first :: (value ++ second :: branches))
  | letIn {commas : Bool} {first second : Token} {locals result : List Token}
      (isFirst : first.kind = .keyword .letWord) (isSecond : second.kind = .keyword .inWord)
      (one : Balanced false locals) (two : Balanced false result) :
      Balanced commas (first :: (locals ++ second :: result))

/-- The cut with more tokens in front. -/
def Cut.pushAll (tokens : List Token) (cut : Cut) : Cut :=
  { cut with inside := tokens ++ cut.inside }

theorem Cut.pushAll_pushAll (first second : List Token) (cut : Cut) :
    (cut.pushAll second).pushAll first = cut.pushAll (first ++ second) := by
  simp [Cut.pushAll]

/-- The search for a cut goes past the tokens, and from one depth to another. -/
def Passing (split : Nat → List Token → Option Cut) (before : Nat) (tokens : List Token) (after : Nat) : Prop :=
  ∀ rest, split before (tokens ++ rest) = (split after rest).map (Cut.pushAll tokens)

namespace Passing

variable {split : Nat → List Token → Option Cut} {before middle after : Nat}

theorem nil (depth : Nat) : Passing split depth [] depth := by
  intro rest
  cases found : split depth rest <;> simp [found, Cut.pushAll]

theorem append {first second : List Token} (one : Passing split before first middle)
    (two : Passing split middle second after) : Passing split before (first ++ second) after := by
  intro rest
  rw [List.append_assoc, one, two, Option.map_map]
  congr 1
  funext cut
  exact Cut.pushAll_pushAll _ _ cut

theorem cons {token : Token} {rest : List Token} (one : Passing split before [token] middle)
    (two : Passing split middle rest after) : Passing split before (token :: rest) after :=
  append one two

theorem concat {tokens : List Token} {token : Token} (one : Passing split before tokens middle)
    (two : Passing split middle [token] after) : Passing split before (tokens ++ [token]) after :=
  append one two

end Passing

namespace Balanced

variable {commas : Bool} {tokens : List Token}

theorem cons {token : Token} (plain : isPlainKind token.kind = true) (rest : Balanced commas tokens) :
    Balanced commas (token :: tokens) :=
  append (.plain plain) rest

theorem emptyRound {opening closing : Token} (opens : opening.kind = .openBracket)
    (closes : closing.kind = .closeBracket) : Balanced commas [opening, closing] :=
  round opens closes .none

theorem emptyCurly {opening closing : Token} (opens : opening.kind = .openCurly)
    (closes : closing.kind = .closeCurly) : Balanced commas [opening, closing] :=
  curly opens closes .none

/-! ## Brackets -/

/-- A pair of brackets. -/
inductive Brackets : Token.Kind → Token.Kind → Prop
  | round : Brackets .openBracket .closeBracket
  | curly : Brackets .openCurly .closeCurly

theorem passing_other {opening closing : Token.Kind} {token : Token} (notOpening : token.kind ≠ opening)
    (notClosing : token.kind ≠ closing) (depth : Nat) :
    Passing (Token.splitClose opening closing) depth [token] depth := by
  intro rest
  cases depth <;> simp [Token.splitClose, notOpening, notClosing] <;> rfl

theorem passing_opening {opening closing : Token.Kind} {token : Token} (same : token.kind = opening) (depth : Nat) :
    Passing (Token.splitClose opening closing) depth [token] (depth + 1) := by
  intro rest
  cases depth <;> simp [Token.splitClose, same] <;> rfl

theorem passing_closing {opening closing : Token.Kind} {token : Token} (other : closing ≠ opening)
    (same : token.kind = closing) (depth : Nat) :
    Passing (Token.splitClose opening closing) (depth + 1) [token] depth := by
  intro rest
  simp [Token.splitClose, same, other]
  rfl

/-- **The search for a closing bracket passes over balanced tokens.** -/
theorem splitClose (balanced : Balanced commas tokens) {opening closing : Token.Kind}
    (brackets : Brackets opening closing) (depth : Nat) :
    Passing (Token.splitClose opening closing) depth tokens depth := by
  have other : ∀ {token : Token}, isPlainKind token.kind = true ∨ token.kind = .comma ∨
      (∃ word, token.kind = .keyword word) → ∀ depth,
        Passing (Token.splitClose opening closing) depth [token] depth := by
    intro token kinds depth
    refine passing_other ?_ ?_ depth <;>
      · cases brackets <;> intro same <;> simp [same, isPlainKind] at kinds
  induction balanced generalizing depth with
  | none => exact .nil depth
  | plain plain => exact other (.inl plain) depth
  | comma comma => exact other (.inr (.inl comma)) depth
  | append _ _ one two => exact (one depth).append (two depth)
  | round opens closes _ inner =>
    cases brackets with
    | round =>
      exact (passing_opening opens depth).cons ((inner (depth + 1)).concat
        (passing_closing (by simp) closes depth))
    | curly =>
      exact (passing_other (by simp [opens]) (by simp [opens]) depth).cons ((inner depth).concat
        (passing_other (by simp [closes]) (by simp [closes]) depth))
  | curly opens closes _ inner =>
    cases brackets with
    | round =>
      exact (passing_other (by simp [opens]) (by simp [opens]) depth).cons ((inner depth).concat
        (passing_other (by simp [closes]) (by simp [closes]) depth))
    | curly =>
      exact (passing_opening opens depth).cons ((inner (depth + 1)).concat
        (passing_closing (by simp) closes depth))
  | conditional isFirst isSecond isThird _ _ _ one two three =>
    exact (other (.inr (.inr ⟨_, isFirst⟩)) depth).cons ((one depth).append
      ((other (.inr (.inr ⟨_, isSecond⟩)) depth).cons ((two depth).append
        ((other (.inr (.inr ⟨_, isThird⟩)) depth).cons (three depth)))))
  | caseOf isFirst isSecond _ _ one two =>
    exact (other (.inr (.inr ⟨_, isFirst⟩)) depth).cons ((one depth).append
      ((other (.inr (.inr ⟨_, isSecond⟩)) depth).cons (two depth)))
  | letIn isFirst isSecond _ _ one two =>
    exact (other (.inr (.inr ⟨_, isFirst⟩)) depth).cons ((one depth).append
      ((other (.inr (.inr ⟨_, isSecond⟩)) depth).cons (two depth)))

/-- **The closing bracket after balanced tokens is found.** -/
theorem splitClose_closing (balanced : Balanced commas tokens) {opens closes : Token.Kind}
    (brackets : Brackets opens closes) {closing : Token} (last : closing.kind = closes) (rest : List Token) :
    Token.splitClose opens closes 0 (tokens ++ closing :: rest) = some ⟨tokens, closing, rest⟩ := by
  have other : closes ≠ opens := by cases brackets <;> simp
  rw [balanced.splitClose brackets, Token.splitClose, if_neg (by simp [last, other]), if_pos (by simp [last])]
  simp [Cut.pushAll]

/-! ## Reserved words -/

/-- A reserved word that ends a part of a construct, with those that start the construct and end its nesting. -/
inductive Parted : Keyword → Keyword → Keyword → Prop
  | thenWord : Parted .thenWord .ifWord .elseWord
  | elseWord : Parted .elseWord .ifWord .elseWord
  | ofWord : Parted .ofWord .caseWord .ofWord
  | inWord : Parted .inWord .letWord .inWord

theorem passing_unreserved {target opener closer : Keyword} {token : Token}
    (unreserved : ∀ word, token.kind ≠ .keyword word) (depth : Nat) :
    Passing (Token.splitKeyword target opener closer) depth [token] depth := by
  intro rest
  rw [List.singleton_append, Token.splitKeyword]
  split
  · rename_i word same
    exact absurd same (unreserved word)
  · rfl

theorem passing_word {target opener closer word : Keyword} {token : Token} (same : token.kind = .keyword word)
    {depth : Nat} (inner : word = target → depth ≠ 0) :
    Passing (Token.splitKeyword target opener closer) depth [token]
      (if word = opener then depth + 1 else if word = closer then depth - 1 else depth) := by
  intro rest
  have passed : (word == target && depth == 0) = false := by
    cases depth with
    | zero => simpa using inner
    | succ depth => simp
  rw [List.singleton_append, Token.splitKeyword, same]
  simp only [passed, Bool.false_eq_true, if_false, beq_iff_eq]
  rfl

/-- A word that has to do with another construct. -/
theorem passing_foreign {target opener closer word : Keyword} {token : Token} (same : token.kind = .keyword word)
    (notTarget : word ≠ target) (notOpener : word ≠ opener) (notCloser : word ≠ closer) (depth : Nat) :
    Passing (Token.splitKeyword target opener closer) depth [token] depth := by
  have passing : Passing (Token.splitKeyword target opener closer) depth [token]
      (if word = opener then depth + 1 else if word = closer then depth - 1 else depth) :=
    passing_word same fun equal => absurd equal notTarget
  rwa [if_neg notOpener, if_neg notCloser] at passing

theorem passing_opener {target opener closer : Keyword} {token : Token} (same : token.kind = .keyword opener)
    (notTarget : opener ≠ target) (depth : Nat) :
    Passing (Token.splitKeyword target opener closer) depth [token] (depth + 1) := by
  have passing : Passing (Token.splitKeyword target opener closer) depth [token]
      (if opener = opener then depth + 1 else if opener = closer then depth - 1 else depth) :=
    passing_word same fun equal => absurd equal notTarget
  rwa [if_pos rfl] at passing

theorem passing_closer {target opener closer : Keyword} {token : Token} (same : token.kind = .keyword closer)
    (notOpener : closer ≠ opener) (depth : Nat) :
    Passing (Token.splitKeyword target opener closer) (depth + 1) [token] depth := by
  have passing : Passing (Token.splitKeyword target opener closer) (depth + 1) [token]
      (if closer = opener then depth + 1 + 1 else if closer = closer then depth + 1 - 1 else depth + 1) :=
    passing_word same fun _ => Nat.succ_ne_zero depth
  rwa [if_neg notOpener, if_pos rfl] at passing

theorem passing_middle {target opener closer word : Keyword} {token : Token} (same : token.kind = .keyword word)
    (notOpener : word ≠ opener) (notCloser : word ≠ closer) (depth : Nat) :
    Passing (Token.splitKeyword target opener closer) (depth + 1) [token] (depth + 1) := by
  have passing : Passing (Token.splitKeyword target opener closer) (depth + 1) [token]
      (if word = opener then depth + 1 + 1 else if word = closer then depth + 1 - 1 else depth + 1) :=
    passing_word same fun _ => Nat.succ_ne_zero depth
  rwa [if_neg notOpener, if_neg notCloser] at passing

end Balanced

/-! ## Complete constructs -/

open DerwLang.Balanced in
/-- The search for a reserved word passes over the tokens, however deep it is: each construct among them has its own words. -/
structure Complete (tokens : List Token) : Prop where
  passing : ∀ {target opener closer : Keyword}, Parted target opener closer → ∀ depth,
    Passing (Token.splitKeyword target opener closer) depth tokens depth

/-- The words of conditionals, cases and local definitions. -/
def isConstructWord : Token.Kind → Bool
  | .keyword word => [.ifWord, .thenWord, .elseWord, .caseWord, .ofWord, .letWord, .inWord].contains word
  | _ => false

namespace Complete

open DerwLang.Balanced

variable {front back : List Token}

theorem nil : Complete [] :=
  ⟨fun _ => .nil⟩

theorem append (one : Complete front) (two : Complete back) : Complete (front ++ back) :=
  ⟨fun parted depth => (one.passing parted depth).append (two.passing parted depth)⟩

theorem token {token : Token} (other : isConstructWord token.kind = false) : Complete [token] := by
  refine ⟨fun parted depth => ?_⟩
  cases kind : token.kind with
  | keyword word =>
    refine passing_foreign kind ?_ ?_ ?_ depth <;>
      · cases parted <;> rintro rfl <;> simp [kind, isConstructWord] at other
  | _ => exact passing_unreserved (by simp [kind]) depth

theorem cons {token : Token} (other : isConstructWord token.kind = false) (more : Complete back) :
    Complete (token :: back) :=
  append (.token other) more

/-- Tokens around complete ones. -/
theorem around {first last : Token} (notFirst : isConstructWord first.kind = false)
    (notLast : isConstructWord last.kind = false) (inner : Complete front) : Complete (first :: (front ++ [last])) :=
  cons notFirst (inner.append (.token notLast))

/-- **A conditional of complete parts is complete**, as its `if` opens what its `else` closes. -/
theorem conditional {first second third : Token} {test yes no : List Token} (isFirst : first.kind = .keyword .ifWord)
    (isSecond : second.kind = .keyword .thenWord) (isThird : third.kind = .keyword .elseWord) (one : Complete test)
    (two : Complete yes) (three : Complete no) : Complete (first :: (test ++ second :: (yes ++ third :: no))) := by
  refine ⟨fun parted depth => ?_⟩
  have one := one.passing parted
  have two := two.passing parted
  have three := three.passing parted
  cases parted with
  | thenWord | elseWord =>
    exact (passing_opener isFirst (by simp) depth).cons ((one (depth + 1)).append
      ((passing_middle isSecond (by simp) (by simp) depth).cons ((two (depth + 1)).append
        ((passing_closer isThird (by simp) depth).cons (three depth)))))
  | ofWord | inWord =>
    exact (passing_foreign isFirst (by simp) (by simp) (by simp) depth).cons ((one depth).append
      ((passing_foreign isSecond (by simp) (by simp) (by simp) depth).cons ((two depth).append
        ((passing_foreign isThird (by simp) (by simp) (by simp) depth).cons (three depth)))))

/-- **A case of complete parts is complete.** -/
theorem caseOf {first second : Token} {value branches : List Token} (isFirst : first.kind = .keyword .caseWord)
    (isSecond : second.kind = .keyword .ofWord) (one : Complete value) (two : Complete branches) :
    Complete (first :: (value ++ second :: branches)) := by
  refine ⟨fun parted depth => ?_⟩
  have one := one.passing parted
  have two := two.passing parted
  cases parted with
  | ofWord =>
    exact (passing_opener isFirst (by simp) depth).cons ((one (depth + 1)).append
      ((passing_closer isSecond (by simp) depth).cons (two depth)))
  | thenWord | elseWord | inWord =>
    exact (passing_foreign isFirst (by simp) (by simp) (by simp) depth).cons ((one depth).append
      ((passing_foreign isSecond (by simp) (by simp) (by simp) depth).cons (two depth)))

/-- **Local definitions of complete parts are complete.** -/
theorem letIn {first second : Token} {locals result : List Token} (isFirst : first.kind = .keyword .letWord)
    (isSecond : second.kind = .keyword .inWord) (one : Complete locals) (two : Complete result) :
    Complete (first :: (locals ++ second :: result)) := by
  refine ⟨fun parted depth => ?_⟩
  have one := one.passing parted
  have two := two.passing parted
  cases parted with
  | inWord =>
    exact (passing_opener isFirst (by simp) depth).cons ((one (depth + 1)).append
      ((passing_closer isSecond (by simp) depth).cons (two depth)))
  | thenWord | elseWord | ofWord =>
    exact (passing_foreign isFirst (by simp) (by simp) (by simp) depth).cons ((one depth).append
      ((passing_foreign isSecond (by simp) (by simp) (by simp) depth).cons (two depth)))

/-- **The reserved word after complete tokens is found.** -/
theorem splitKeyword_word (complete : Complete front) {target opener closer : Keyword}
    (parted : Parted target opener closer) {word : Token} (same : word.kind = .keyword target) (rest : List Token) :
    Token.splitKeyword target opener closer 0 (front ++ word :: rest) = some ⟨front, word, rest⟩ := by
  rw [complete.passing parted, Token.splitKeyword, same]
  simp [Cut.pushAll]

end Complete

namespace Balanced

variable {commas : Bool} {tokens : List Token}

/-- **The search for a reserved word passes over balanced tokens.** -/
theorem complete (balanced : Balanced commas tokens) : Complete tokens := by
  induction balanced with
  | none => exact .nil
  | @plain _ token plain =>
    refine .token ?_
    cases kind : token.kind with
    | keyword word => cases word <;> simp [kind, isPlainKind, isConstructWord] at plain ⊢
    | _ => rfl
  | comma comma => exact .token (by rw [comma]; rfl)
  | append _ _ one two => exact one.append two
  | round opens closes _ inner => exact .around (by rw [opens]; rfl) (by rw [closes]; rfl) inner
  | curly opens closes _ inner => exact .around (by rw [opens]; rfl) (by rw [closes]; rfl) inner
  | conditional isFirst isSecond isThird _ _ _ one two three => exact .conditional isFirst isSecond isThird one two three
  | caseOf isFirst isSecond _ _ one two => exact .caseOf isFirst isSecond one two
  | letIn isFirst isSecond _ _ one two => exact .letIn isFirst isSecond one two

/-- **The reserved word after balanced tokens is found.** -/
theorem splitKeyword_word (balanced : Balanced commas tokens) {target opener closer : Keyword}
    (parted : Parted target opener closer) {word : Token} (same : word.kind = .keyword target) (rest : List Token) :
    Token.splitKeyword target opener closer 0 (tokens ++ word :: rest) = some ⟨tokens, word, rest⟩ :=
  balanced.complete.splitKeyword_word parted same rest

/-! ## Separators -/

/-- The separation of windows takes the tokens into the first of them, and goes from one depth to another. -/
def Carrying (separator : Token.Kind) (before : Nat) (tokens : List Token) (after : Nat) : Prop :=
  ∀ line rest, Window.splitFrom separator before line (tokens ++ rest) =
    tokens.foldr (Window.pushFirst line) (Window.splitFrom separator after line rest)

namespace Carrying

variable {separator : Token.Kind} {before middle after : Nat}

theorem nil (depth : Nat) : Carrying separator depth [] depth := fun _ _ => rfl

theorem append {first second : List Token} (one : Carrying separator before first middle)
    (two : Carrying separator middle second after) : Carrying separator before (first ++ second) after := by
  intro line rest
  rw [List.append_assoc, one, two, List.foldr_append]

theorem cons {token : Token} {rest : List Token} (one : Carrying separator before [token] middle)
    (two : Carrying separator middle rest after) : Carrying separator before (token :: rest) after :=
  append one two

theorem concat {tokens : List Token} {token : Token} (one : Carrying separator before tokens middle)
    (two : Carrying separator middle [token] after) : Carrying separator before (tokens ++ [token]) after :=
  append one two

end Carrying

/-- The depth after one more token. -/
def depthAfter (depth : Nat) : Token.Kind → Nat
  | .openBracket | .openCurly => depth + 1
  | .closeBracket | .closeCurly => depth - 1
  | _ => depth

theorem carrying_token {separator : Token.Kind} {token : Token} {depth : Nat}
    (stays : token.kind = separator → depth ≠ 0) :
    Carrying separator depth [token] (depthAfter depth token.kind) := by
  intro line rest
  have passed : (token.kind == separator && depth == 0) = false := by
    cases depth with
    | zero => simpa using stays
    | succ depth => simp
  rw [List.singleton_append, Window.splitFrom]
  simp only [passed, Bool.false_eq_true, if_false]
  cases kind : token.kind <;> rfl

theorem carrying_other {separator : Token.Kind} {token : Token} {depth : Nat}
    (stays : token.kind = separator → depth ≠ 0) (level : depthAfter depth token.kind = depth) :
    Carrying separator depth [token] depth := by
  have carrying := carrying_token stays
  rwa [level] at carrying

/-- A reserved word, where commas are sought or the word is not the separator. -/
theorem carrying_keyword {separator : Token.Kind} {token : Token} {word : Keyword} {depth : Nat}
    (same : token.kind = .keyword word) (stays : token.kind ≠ separator) :
    Carrying separator depth [token] depth :=
  carrying_other (fun equal => absurd equal stays) (by rw [same]; rfl)

/-- Brackets around tokens that stay together one level deeper. -/
theorem carrying_brackets {separator opens closes : Token.Kind} {opening closing : Token} {inside : List Token}
    {depth : Nat} (brackets : Brackets opens closes) (first : opening.kind = opens) (last : closing.kind = closes)
    (stays : opening.kind ≠ separator) (inner : Carrying separator (depth + 1) inside (depth + 1)) :
    Carrying separator depth (opening :: (inside ++ [closing])) depth := by
  have goesIn : Carrying separator depth [opening] (depthAfter depth opening.kind) :=
    carrying_token fun equal => absurd equal stays
  have comesOut : Carrying separator (depth + 1) [closing] (depthAfter (depth + 1) closing.kind) :=
    carrying_token fun _ => Nat.succ_ne_zero depth
  rw [first] at goesIn
  rw [last] at comesOut
  cases brackets <;> exact goesIn.cons (inner.concat comesOut)

/-- **The separation of windows keeps balanced tokens together.** -/
theorem splitFrom (balanced : Balanced commas tokens) {separator : Token.Kind}
    (absent : ∀ token ∈ tokens, token.kind = separator → separator = .comma) (depth : Nat)
    (within : commas = true → depth ≠ 0) : Carrying separator depth tokens depth := by
  have differs : ∀ {token : Token}, (token.kind = separator → separator = .comma) → token.kind ≠ .comma →
      token.kind ≠ separator :=
    fun only other same => other (same.trans (only same))
  have reserved : ∀ {token : Token} {word : Keyword}, token.kind = .keyword word → token.kind ≠ .comma := by
    intro token word same
    simp [same]
  induction balanced generalizing depth with
  | none => exact .nil depth
  | @plain _ token plain =>
    have notComma : token.kind ≠ .comma := by
      intro same
      simp [same, isPlainKind] at plain
    have stays := differs (absent token List.mem_cons_self) notComma
    refine carrying_other (fun same => absurd same stays) ?_
    cases kind : token.kind <;> simp [kind, isPlainKind, depthAfter] at plain ⊢
  | comma comma => exact carrying_other (fun _ => within rfl) (by rw [comma]; rfl)
  | append _ _ one two =>
    simp only [List.mem_append, or_imp, forall_and] at absent
    exact (one absent.1 depth within).append (two absent.2 depth within)
  | round opens closes _ inner =>
    simp only [List.mem_cons, List.mem_append, or_imp, forall_and, forall_eq] at absent
    exact carrying_brackets .round opens closes (differs absent.1 (by simp [opens]))
      (inner absent.2.1 (depth + 1) fun _ => Nat.succ_ne_zero depth)
  | curly opens closes _ inner =>
    simp only [List.mem_cons, List.mem_append, or_imp, forall_and, forall_eq] at absent
    exact carrying_brackets .curly opens closes (differs absent.1 (by simp [opens]))
      (inner absent.2.1 (depth + 1) fun _ => Nat.succ_ne_zero depth)
  | conditional isFirst isSecond isThird _ _ _ one two three =>
    simp only [List.mem_cons, List.mem_append, or_imp, forall_and, forall_eq] at absent
    obtain ⟨ifAbsent, testAbsent, thenAbsent, yesAbsent, elseAbsent, noAbsent⟩ := absent
    exact (carrying_keyword isFirst (differs ifAbsent (reserved isFirst))).cons
      ((one testAbsent depth (by simp)).append
        ((carrying_keyword isSecond (differs thenAbsent (reserved isSecond))).cons
          ((two yesAbsent depth (by simp)).append
            ((carrying_keyword isThird (differs elseAbsent (reserved isThird))).cons
              (three noAbsent depth (by simp))))))
  | caseOf isFirst isSecond _ _ one two =>
    simp only [List.mem_cons, List.mem_append, or_imp, forall_and, forall_eq] at absent
    obtain ⟨caseAbsent, valueAbsent, ofAbsent, branchesAbsent⟩ := absent
    exact (carrying_keyword isFirst (differs caseAbsent (reserved isFirst))).cons
      ((one valueAbsent depth (by simp)).append
        ((carrying_keyword isSecond (differs ofAbsent (reserved isSecond))).cons
          (two branchesAbsent depth (by simp))))
  | letIn isFirst isSecond _ _ one two =>
    simp only [List.mem_cons, List.mem_append, or_imp, forall_and, forall_eq] at absent
    obtain ⟨letAbsent, localsAbsent, inAbsent, resultAbsent⟩ := absent
    exact (carrying_keyword isFirst (differs letAbsent (reserved isFirst))).cons
      ((one localsAbsent depth (by simp)).append
        ((carrying_keyword isSecond (differs inAbsent (reserved isSecond))).cons
          (two resultAbsent depth (by simp))))

/-! ## Kinds that do not occur -/

/-- **The tokens that occur in balanced tokens** are plain, commas, brackets or reserved words. -/
theorem kind_of_mem (balanced : Balanced commas tokens) {token : Token} (member : token ∈ tokens) :
    isPlainKind token.kind = true ∨ token.kind ∈ [.comma, .openBracket, .closeBracket, .openCurly, .closeCurly] ∨
      ∃ word, token.kind = .keyword word := by
  induction balanced with
  | none => simp at member
  | plain plain => exact .inl (List.mem_singleton.mp member ▸ plain)
  | comma comma => exact .inr (.inl (by simp [List.mem_singleton.mp member, comma]))
  | append _ _ one two => exact (List.mem_append.mp member).elim one two
  | round opens closes _ inner =>
    simp only [List.mem_cons, List.mem_append, List.not_mem_nil, or_false] at member
    rcases member with rfl | inside | rfl
    · exact .inr (.inl (by simp [opens]))
    · exact inner inside
    · exact .inr (.inl (by simp [closes]))
  | curly opens closes _ inner =>
    simp only [List.mem_cons, List.mem_append, List.not_mem_nil, or_false] at member
    rcases member with rfl | inside | rfl
    · exact .inr (.inl (by simp [opens]))
    · exact inner inside
    · exact .inr (.inl (by simp [closes]))
  | conditional isFirst isSecond isThird _ _ _ one two three =>
    simp only [List.mem_cons, List.mem_append] at member
    rcases member with rfl | inside | rfl | inside | rfl | inside
    exacts [.inr (.inr ⟨_, isFirst⟩), one inside, .inr (.inr ⟨_, isSecond⟩), two inside,
      .inr (.inr ⟨_, isThird⟩), three inside]
  | caseOf isFirst isSecond _ _ one two =>
    simp only [List.mem_cons, List.mem_append] at member
    rcases member with rfl | inside | rfl | inside
    exacts [.inr (.inr ⟨_, isFirst⟩), one inside, .inr (.inr ⟨_, isSecond⟩), two inside]
  | letIn isFirst isSecond _ _ one two =>
    simp only [List.mem_cons, List.mem_append] at member
    rcases member with rfl | inside | rfl | inside
    exacts [.inr (.inr ⟨_, isFirst⟩), one inside, .inr (.inr ⟨_, isSecond⟩), two inside]

/-- Balanced tokens hold no range. -/
theorem no_range (balanced : Balanced commas tokens) : ∀ token ∈ tokens, token.kind ≠ .operator .range := by
  intro token member same
  have kinds := balanced.kind_of_mem member
  simp [same, isPlainKind] at kinds

/-- The grammar sees all of the tokens. -/
theorem significant (balanced : Balanced commas tokens) : Token.significant tokens = tokens := by
  refine List.filter_eq_self.mpr fun token member => ?_
  have kinds := balanced.kind_of_mem member
  cases kind : token.kind <;> simp [kind, isPlainKind] at kinds <;>
    simp [Token.isTrivia, kind, Token.Kind.isTrivia, Token.Kind.isComment]

end Balanced

/-- A kind that does not occur cuts nothing. -/
theorem Token.splitKind_eq_none {kind : Token.Kind} {tokens : List Token}
    (absent : ∀ token ∈ tokens, token.kind ≠ kind) : Token.splitKind kind tokens = none := by
  induction tokens with
  | nil => rfl
  | cons token rest step =>
    rw [List.forall_mem_cons] at absent
    rw [Token.splitKind, if_neg (by simpa using absent.1), step absent.2]
    rfl

/-- The first token of a kind cuts the tokens. -/
theorem Token.splitKind_append {kind : Token.Kind} {tokens : List Token}
    (absent : ∀ token ∈ tokens, token.kind ≠ kind) {cutting : Token} (same : cutting.kind = kind)
    (rest : List Token) : Token.splitKind kind (tokens ++ cutting :: rest) = some ⟨tokens, cutting, rest⟩ := by
  induction tokens with
  | nil => rw [List.nil_append, Token.splitKind, if_pos (by simpa using same)]
  | cons token more step =>
    rw [List.forall_mem_cons] at absent
    rw [List.cons_append, Token.splitKind, if_neg (by simpa using absent.1), step absent.2]
    rfl

end DerwLang
