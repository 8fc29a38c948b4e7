/-
**Constructs take their own words.**

What is read is complete, so the first `then` that a conditional finds outside further conditionals is its own one, whatever
stands in front of it, and so are its `else`, the `of` of a case and the `in` of local definitions. The parts of a construct
can then be read one by one (`constructs_of_parts`).
-/

import DerwLang.Proofs.Reading.Depth
import DerwLang.Proofs.Reading.Expression

namespace DerwLang

open Grammar

/-- An operand that reaches to the end of its window makes the expression. -/
theorem expressionStep_of_reaching {nested : Nested} {window : Window} {read : Parsed Expression}
    (reaches : operand nested window = read >>= fun whole => .ok (whole, window.finished)) :
    expressionStep nested window = read := by
  cases read with
  | error error =>
    rw [expressionStep, reaches]
    rfl
  | ok whole => exact Written.expressionStep_finished reaches

section

variable {before : Nat} {first second third : Token}

/-- The parts of a conditional are read by themselves. -/
theorem conditional_of_parts (isThen : second.kind = .keyword .thenWord) (isElse : third.kind = .keyword .elseWord)
    {test yes no : List Token} {predicate : Expression} {whenTrue whenFalse : Body}
    (one : Grammar.expression ⟨before, test⟩ = .ok predicate) (two : Grammar.body ⟨second.line, yes⟩ = .ok whenTrue)
    (three : Grammar.body ⟨third.line, no⟩ = .ok whenFalse) :
    conditional ⟨Grammar.expression, Grammar.body⟩ ⟨before, test ++ second :: (yes ++ third :: no)⟩ =
      .ok (.conditional predicate whenTrue whenFalse) := by
  have testComplete : Complete test := completes.expression one
  have yesComplete : Complete yes := completes.body two
  rw [conditional]
  simp only [testComplete.splitKeyword_word .thenWord isThen, yesComplete.splitKeyword_word .elseWord isElse]
  rw [one, two, three]
  rfl

/-- The predicate of a case is read by itself. -/
theorem caseOf_of_predicate (isOf : second.kind = .keyword .ofWord) {value : List Token} {predicate : Expression}
    (one : Grammar.expression ⟨before, value⟩ = .ok predicate) (rest : List Token) :
    caseOf ⟨Grammar.expression, Grammar.body⟩ ⟨before, value ++ second :: rest⟩ =
      Expression.caseOf predicate <$> branches ⟨Grammar.expression, Grammar.body⟩ ⟨second.line, rest⟩ := by
  have valueComplete : Complete value := completes.expression one
  rw [caseOf]
  simp only [valueComplete.splitKeyword_word .ofWord isOf]
  rw [one]
  cases branches ⟨Grammar.expression, Grammar.body⟩ ⟨second.line, rest⟩ <;> rfl

/-- The local definitions of a body and its result are read by themselves. -/
theorem body_of_parts (isLet : first.kind = .keyword .letWord) (isIn : second.kind = .keyword .inWord)
    {locals result : List Token} {defined : List Block} {value : Expression}
    (one : localDefinitions Grammar.body ⟨first.line, locals⟩ = .ok defined)
    (two : Grammar.expression ⟨second.line, result⟩ = .ok value) :
    Grammar.body ⟨before, first :: (locals ++ second :: result)⟩ = .ok ⟨defined, value⟩ := by
  have localsComplete : Complete locals := complete_locals completes (localDefinitions_rule one)
  rw [body_eq, bodyStep]
  simp only [isLet, beq_self_eq_true, if_true, localsComplete.splitKeyword_word .inWord isIn]
  rw [one, two]
  rfl

theorem expression_conditional (isIf : first.kind = .keyword .ifWord) (rest : List Token) :
    Grammar.expression ⟨before, first :: rest⟩ = conditional ⟨Grammar.expression, Grammar.body⟩ ⟨first.line, rest⟩ := by
  rw [expression_eq]
  refine expressionStep_of_reaching ?_
  rw [operand]
  simp only [isIf]
  rfl

theorem expression_caseOf (isCase : first.kind = .keyword .caseWord) (rest : List Token) :
    Grammar.expression ⟨before, first :: rest⟩ = caseOf ⟨Grammar.expression, Grammar.body⟩ ⟨first.line, rest⟩ := by
  rw [expression_eq]
  refine expressionStep_of_reaching ?_
  rw [operand]
  simp only [isCase]
  rfl

end

/-- **Constructs take their own words.** A conditional is made of the three parts that are accepted around its `then` and its
`else`, a case has what is accepted in front of its `of` as its predicate, and local definitions are those accepted in front of
their `in`, whatever conditionals, cases, local definitions and lambdas these parts hold. -/
theorem constructs_of_parts (before : Nat) (first second third : Token) :
    (∀ (test yes no : List Token) (predicate : Expression) (whenTrue whenFalse : Body),
      first.kind = .keyword .ifWord → second.kind = .keyword .thenWord → third.kind = .keyword .elseWord →
      Grammar.expression ⟨first.line, test⟩ = .ok predicate → Grammar.body ⟨second.line, yes⟩ = .ok whenTrue →
      Grammar.body ⟨third.line, no⟩ = .ok whenFalse →
        conditional ⟨Grammar.expression, Grammar.body⟩ ⟨first.line, test ++ second :: (yes ++ third :: no)⟩ =
            .ok (.conditional predicate whenTrue whenFalse) ∧
          Grammar.expression ⟨before, first :: (test ++ second :: (yes ++ third :: no))⟩ =
            .ok (.conditional predicate whenTrue whenFalse)) ∧
    (∀ (value rest : List Token) (predicate : Expression),
      first.kind = .keyword .caseWord → second.kind = .keyword .ofWord →
      Grammar.expression ⟨first.line, value⟩ = .ok predicate →
        caseOf ⟨Grammar.expression, Grammar.body⟩ ⟨first.line, value ++ second :: rest⟩ =
            Expression.caseOf predicate <$> branches ⟨Grammar.expression, Grammar.body⟩ ⟨second.line, rest⟩ ∧
          Grammar.expression ⟨before, first :: (value ++ second :: rest)⟩ =
            Expression.caseOf predicate <$> branches ⟨Grammar.expression, Grammar.body⟩ ⟨second.line, rest⟩) ∧
    ∀ (locals result : List Token) (defined : List Block) (value : Expression),
      first.kind = .keyword .letWord → second.kind = .keyword .inWord →
      localDefinitions Grammar.body ⟨first.line, locals⟩ = .ok defined →
      Grammar.expression ⟨second.line, result⟩ = .ok value →
        Grammar.body ⟨before, first :: (locals ++ second :: result)⟩ = .ok ⟨defined, value⟩ := by
  refine ⟨?_, ?_, ?_⟩
  · intro test yes no predicate whenTrue whenFalse isIf isThen isElse one two three
    rw [expression_conditional isIf, and_self]
    exact conditional_of_parts isThen isElse one two three
  · intro value rest predicate isCase isOf one
    rw [expression_caseOf isCase, and_self]
    exact caseOf_of_predicate isOf one rest
  · intro locals result defined value isLet isIn one two
    exact body_of_parts isLet isIn one two

/-- A conditional in front of a `then`, a case and a lambda in front of an `else`, and each of them where they stand alone. -/
theorem constructs_of_parts_nested :
    let piece := fun source => Token.significant (tokenize source)
    let word := fun keyword : Keyword => (⟨.keyword keyword, keyword.spelling, 1, 1⟩ : Token)
    let test := Expression.conditional (.value "a") ⟨[], .value "b"⟩ ⟨[], .value "c"⟩
    let choice := Expression.caseOf (.value "y") [⟨.otherwise, ⟨[], .value "1"⟩⟩]
    let whenTrue : Body := ⟨[.constant ⟨"x", .any, ⟨[], choice⟩⟩], .lambda ⟨["z"], .value "x"⟩⟩
    (Grammar.expression ⟨1, piece "if a then b else c"⟩ = .ok test ∧
      Grammar.body ⟨1, piece "let x = case y of default -> 1 in \\z -> x"⟩ = .ok whenTrue ∧
      Grammar.body ⟨1, piece "d"⟩ = .ok ⟨[], .value "d"⟩ ∧
      Grammar.expression ⟨1, word .ifWord :: (piece "if a then b else c" ++ word .thenWord ::
        (piece "let x = case y of default -> 1 in \\z -> x" ++ word .elseWord :: piece "d"))⟩ =
          .ok (.conditional test whenTrue ⟨[], .value "d"⟩)) ∧
    Grammar.expression ⟨1, word .caseWord :: (piece "if a then b else c" ++ word .ofWord :: piece "default -> 1")⟩ =
      .ok (.caseOf test [⟨.otherwise, ⟨[], .value "1"⟩⟩]) ∧
    (localDefinitions Grammar.body ⟨1, piece "x = case y of default -> 1"⟩ = .ok whenTrue.locals ∧
      Grammar.expression ⟨1, piece "\\z -> x"⟩ = .ok whenTrue.result ∧
      Grammar.body ⟨1, word .letWord :: (piece "x = case y of default -> 1" ++ word .inWord :: piece "\\z -> x")⟩ =
        .ok whenTrue) := by
  intro piece word test choice whenTrue
  have one : Grammar.expression ⟨1, piece "if a then b else c"⟩ = .ok test := by with_unfolding_all rfl
  have two : Grammar.body ⟨1, piece "let x = case y of default -> 1 in \\z -> x"⟩ = .ok whenTrue := by
    with_unfolding_all rfl
  have three : Grammar.body ⟨1, piece "d"⟩ = .ok ⟨[], .value "d"⟩ := by with_unfolding_all rfl
  have defined : localDefinitions Grammar.body ⟨1, piece "x = case y of default -> 1"⟩ = .ok whenTrue.locals := by
    with_unfolding_all rfl
  have result : Grammar.expression ⟨1, piece "\\z -> x"⟩ = .ok whenTrue.result := by with_unfolding_all rfl
  have chosen : branches ⟨Grammar.expression, Grammar.body⟩ ⟨1, piece "default -> 1"⟩ =
      .ok [⟨.otherwise, ⟨[], .value "1"⟩⟩] := by
    with_unfolding_all rfl
  refine ⟨⟨one, two, three, ?_⟩, ?_, defined, result, ?_⟩
  · exact (constructs_of_parts 1 (word .ifWord) (word .thenWord) (word .elseWord)).1 _ _ _ _ _ _ rfl rfl rfl one two three |>.2
  · rw [((constructs_of_parts 1 (word .caseWord) (word .ofWord) (word .inWord)).2.1 _ _ _ rfl rfl one).2]
    exact congrArg (Expression.caseOf test <$> ·) chosen
  · exact (constructs_of_parts 1 (word .letWord) (word .inWord) (word .inWord)).2.2 _ _ _ _ rfl rfl defined result

end DerwLang
