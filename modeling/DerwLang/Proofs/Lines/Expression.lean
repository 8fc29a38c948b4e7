/-
**Expressions further down.**

An operand is read further down as it is here when the readers of what is nested in it do so (`NestedLowers`), and so is a
whole window (`lowers_expressionStep`). A list literal is read anew from its own place on, which goes down with it
(`lowers_listLiteral`).
-/

import DerwLang.Proofs.Lines.Type

namespace DerwLang

open Grammar

variable {lines : Set Nat} {count : Nat}

/-- The nested readers read further down as they do here. -/
structure NestedLowers (lines : Set Nat) (count : Nat) (nested : Nested) : Prop where
  expression : ∀ {window : Window}, window.On lines →
    Lowers lines count Eq (nested.expression window) (nested.expression (window.lowered count))
  body : ∀ {window : Window}, window.On lines →
    Lowers lines count Eq (nested.body window) (nested.body (window.lowered count))

section

variable {nested : Nested} {window : Window} {token : Token} {rest : List Token} {line : Nat}

/-! ## Records and lists -/

theorem lowers_recordField (lowers : NestedLowers lines count nested) (known : line ∈ lines) (on : window.On lines) :
    Lowers lines count Eq (recordField nested line window) (recordField nested (line + count) (window.lowered count)) := by
  obtain ⟨before, tokens⟩ := window
  cases tokens with
  | nil => exact .blamed _ known
  | cons name rest =>
    obtain ⟨own, later⟩ := List.forall_mem_cons.mp on.tokens
    cases rest with
    | nil => exact .blamed _ own.line
    | cons colon value =>
      obtain ⟨own', later'⟩ := List.forall_mem_cons.mp later
      refine .ite (fun _ => ?_) fun _ => .blamed _ own.line
      refine (lowers.expression (Window.on_mk own'.line later')).bind ?_
      rintro value _ rfl
      exact .value _

theorem loneName?_lowered (window : Window) : loneName? (window.lowered count) = loneName? window := by
  obtain ⟨before, tokens⟩ := window
  match tokens with
  | [] | [_] | _ :: _ :: _ => rfl

theorem lowers_recordFields (lowers : NestedLowers lines count nested) (known : line ∈ lines) {windows : List Window}
    (on : ∀ window ∈ windows, window.On lines) :
    Lowers lines count Eq (recordFields nested line windows)
      (recordFields nested (line + count) (windows.map (Window.lowered count))) := by
  have fields : ∀ {windows : List Window}, (∀ window ∈ windows, window.On lines) →
      Lowers lines count Eq (windows.mapM (recordField nested line))
        ((windows.map (Window.lowered count)).mapM (recordField nested (line + count))) :=
    fun on => .mapM fun window member => lowers_recordField lowers known (on window member)
  cases windows with
  | nil => exact .value _
  | cons window more =>
    rw [List.map_cons, recordFields, recordFields, loneName?_lowered]
    cases loneName? window with
    | some base =>
      refine (fields (List.forall_mem_cons.mp on).2).bind ?_
      rintro fields _ rfl
      exact .value _
    | none =>
      refine (fields on).bind ?_
      rintro fields _ rfl
      exact .value _

theorem lowers_recordLiteral (lowers : NestedLowers lines count nested) (own : token.On lines)
    (later : ∀ other ∈ rest, other.On lines) :
    Lowers lines count (Left lines count) (recordLiteral nested token rest)
      (recordLiteral nested (token.lowered count) (rest.map (Token.lowered count))) := by
  unfold recordLiteral
  rw [splitClose_lowered]
  cases found : Token.splitClose .openCurly .closeCurly 0 rest with
  | none => exact .blamed _ own.line
  | some cut =>
    obtain ⟨inside, closing, after⟩ := Cut.forall_of_all (Token.splitClose_eq found) later
    have within : Window.On lines ⟨token.line, cut.inside⟩ := ⟨own.line, inside⟩
    have final : Window.On lines ⟨cut.token.line, cut.after⟩ := ⟨closing.line, after⟩
    have fields := lowers_recordFields lowers own.line (within.splitOutside .comma)
    rw [← splitOutside_lowered] at fields
    simp only [Option.map_some, Cut.lowered, List.isEmpty_map]
    refine .ite (fun _ => .left _ final) fun _ => fields.bind ?_
    rintro literal _ rfl
    exact .left _ final

/-- A bound that is missing is blamed on the first line, and any other on its own. -/
theorem lowers_rangeBound {tokens : List Token} (on : ∀ token ∈ tokens, token.On lines) :
    Lowers lines count Eq (rangeBound tokens) (rangeBound (tokens.map (Token.lowered count))) := by
  match tokens with
  | [] => exact .error (.unplaced rfl)
  | [token] => exact .ite (fun _ => .value _) fun _ => .blamed _ (on token List.mem_cons_self).line
  | token :: next :: rest => exact .blamed _ (on token List.mem_cons_self).line

theorem lowers_listItem (lowers : NestedLowers lines count nested) (known : line ∈ lines) (on : window.On lines) :
    Lowers lines count Eq (listItem nested line window) (listItem nested (line + count) (window.lowered count)) := by
  unfold listItem
  rw [show (window.lowered count).tokens.isEmpty = window.tokens.isEmpty from List.isEmpty_map]
  exact .ite (fun _ => .blamed _ known) fun _ => lowers.expression on

/-- **A list literal is read further down as it is here.** -/
theorem lowers_listLiteral (lowers : NestedLowers lines count nested) (own : token.On lines) :
    Lowers lines count Eq (listLiteral nested token) (listLiteral nested (token.lowered count)) := by
  have on : ∀ inner ∈ Token.significant (tokenizeAt (unquote token.body) token.line (token.column + 1)), inner.On lines :=
    fun inner seen => on_interior own _ inner (Token.of_mem_significant seen)
  unfold listLiteral
  rw [Token.body_lowered, Token.line_lowered, Token.column_lowered, tokenizeAt_lowered, Token.significant_lowered]
  generalize Token.significant (tokenizeAt (unquote token.body) token.line (token.column + 1)) = tokens at on ⊢
  dsimp only
  rw [List.isEmpty_map, splitKind_lowered]
  refine .ite (fun _ => .value _) fun filled => ?_
  have some_ : tokens ≠ [] := by simpa using filled
  cases found : Token.splitKind (.operator .range) tokens with
  | some cut =>
    obtain ⟨inside, -, after⟩ := Cut.forall_of_all (Token.splitKind_eq found) on
    refine (lowers_rangeBound inside).bind ?_
    rintro first _ rfl
    refine (lowers_rangeBound after).bind ?_
    rintro last _ rfl
    exact .value _
  | none =>
    have within : Window.On lines ⟨lineOf tokens, tokens⟩ := ⟨lineOf_mem some_ on, on⟩
    refine Lowers.bind_by Eq ?_ ?_
    · rw [lineOf_lowered some_]
      show Lowers lines count Eq _ ((Window.splitOutside (Window.lowered count ⟨lineOf tokens, tokens⟩) .comma).mapM _)
      rw [splitOutside_lowered]
      exact .mapM fun window member => lowers_listItem lowers own.line (within.splitOutside _ window member)
    · rintro items _ rfl
      exact .value _

/-! ## Atoms -/

/-- A minus stands directly before a number further down if it does so here. -/
theorem negatedNumber?_lowered (minus number : Token) :
    negatedNumber? (minus.lowered count) (number.lowered count) = negatedNumber? minus number := by
  have sameLine : (number.line + count == minus.line + count) = (number.line == minus.line) := by
    rw [Bool.eq_iff_iff, beq_iff_eq, beq_iff_eq]
    exact Nat.add_right_cancel_iff
  simp only [negatedNumber?, Token.kind_lowered, Token.body_lowered, Token.line_lowered, Token.column_lowered, sameLine]

theorem lowers_atom (lowers : NestedLowers lines count nested) (on : window.On lines) :
    Lowers lines count (Left lines count) (atom nested window) (atom nested (window.lowered count)) := by
  obtain ⟨before, tokens⟩ := window
  cases tokens with
  | nil => exact .here on _
  | cons token rest =>
    obtain ⟨own, later⟩ := List.forall_mem_cons.mp on.tokens
    have after : Window.On lines ⟨token.line, rest⟩ := ⟨own.line, later⟩
    simp only [atom, Window.lowered, List.map_cons, Token.kind_lowered, Token.body_lowered]
    cases kind : token.kind with
    | literal =>
      refine .ite (fun isList => ?_) fun _ => .left _ after
      refine (lowers_listLiteral lowers own).bind ?_
      rintro items _ rfl
      exact .left _ after
    | string | formatString => exact .left _ after
    | openBracket =>
      dsimp only
      rw [splitClose_lowered]
      cases found : Token.splitClose .openBracket .closeBracket 0 rest with
      | none => exact .blamed _ own.line
      | some cut =>
        obtain ⟨inside, closing, left⟩ := Cut.forall_of_all (Token.splitClose_eq found) later
        refine (lowers.expression (Window.on_mk own.line inside)).bind ?_
        rintro inner _ rfl
        exact .left _ ⟨closing.line, left⟩
    | openCurly =>
      refine (lowers_recordLiteral lowers own later).bind ?_
      rintro ⟨literal, ending⟩ _ ⟨left, rfl⟩
      exact .left _ left
    | identifier =>
      cases rest with
      | nil => exact .left _ after
      | cons next more =>
        obtain ⟨own', later'⟩ := List.forall_mem_cons.mp later
        refine .ite (fun _ => ?_) fun _ => .left _ after
        refine (lowers_recordLiteral lowers own' later').bind ?_
        rintro ⟨literal, ending⟩ _ ⟨left, rfl⟩
        exact .left _ left
    | operator sign =>
      cases sign with
      | minus =>
        cases rest with
        | nil => exact .blamed _ own.line
        | cons number more =>
          obtain ⟨own', later'⟩ := List.forall_mem_cons.mp later
          simp only [List.map_cons, negatedNumber?_lowered]
          cases negatedNumber? token number with
          | none => exact .blamed _ own.line
          | some text => exact .left _ ⟨own'.line, later'⟩
      | _ => exact .blamed _ own.line
    | _ => exact .blamed _ own.line

/-! ## Operands -/

theorem lowers_arguments (lowers : NestedLowers lines count nested) (on : window.On lines) :
    Lowers lines count (Left lines count) (arguments nested window) (arguments nested (window.lowered count)) := by
  induction size : window.tokens.length using Nat.strongRecOn generalizing window with
  | _ size step =>
    rw [arguments_eq, arguments_eq, Window.nextKind_lowered]
    refine .ite (fun _ => ?_) fun _ => .left _ on
    refine (lowers_atom lowers on).bind_found ?_
    rintro ⟨first, ending⟩ _ found ⟨left, rfl⟩
    have shorter := length_atom found
    refine (step ending.tokens.length (by omega) left rfl).bind ?_
    rintro ⟨others, final⟩ _ ⟨left, rfl⟩
    exact .left _ left

theorem lowers_conditional (lowers : NestedLowers lines count nested) (on : window.On lines) :
    Lowers lines count Eq (conditional nested window) (conditional nested (window.lowered count)) := by
  unfold conditional
  rw [show (window.lowered count).tokens = window.tokens.map (Token.lowered count) from rfl, splitKeyword_lowered]
  cases found : Token.splitKeyword .thenWord .ifWord .elseWord 0 window.tokens with
  | none => exact .here on _
  | some predicate =>
    obtain ⟨inside, thenWord, after⟩ := Cut.forall_of_all (Token.splitKeyword_eq found) on.tokens
    simp only [Option.map_some, Cut.lowered, splitKeyword_lowered]
    cases found' : Token.splitKeyword .elseWord .ifWord .elseWord 0 predicate.after with
    | none => exact .here on _
    | some yes =>
      obtain ⟨inside', elseWord, after'⟩ := Cut.forall_of_all (Token.splitKeyword_eq found') after
      refine (lowers.expression (Window.on_mk on.before inside)).bind ?_
      rintro test _ rfl
      refine (lowers.body (Window.on_mk thenWord.line inside')).bind ?_
      rintro whenTrue _ rfl
      refine (lowers.body (Window.on_mk elseWord.line after')).bind ?_
      rintro whenFalse _ rfl
      exact .value _

theorem lowers_branch (lowers : NestedLowers lines count nested) (on : window.On lines) :
    Lowers lines count Eq (branch nested window) (branch nested (window.lowered count)) := by
  unfold branch
  rw [show (window.lowered count).tokens = window.tokens.map (Token.lowered count) from rfl, splitKind_lowered,
    Window.found_lowered]
  cases found : Token.splitKind .arrow window.tokens with
  | none => exact .here on _
  | some cut =>
    obtain ⟨inside, arrow, after⟩ := Cut.forall_of_all (Token.splitKind_eq found) on.tokens
    refine (lowers_pattern (Window.on_mk on.before inside)).bind ?_
    rintro pattern _ rfl
    refine (lowers.body (Window.on_mk arrow.line after)).bind ?_
    rintro body _ rfl
    exact .value _

theorem lowers_branches (lowers : NestedLowers lines count nested) (on : window.On lines) :
    Lowers lines count Eq (branches nested window) (branches nested (window.lowered count)) := by
  obtain ⟨before, tokens⟩ := window
  cases tokens with
  | nil => exact .here on _
  | cons first rest =>
    simp only [branches, Window.lowered, List.map_cons, Token.column_lowered, splitStarts_lowered]
    exact .mapM fun window member => lowers_branch lowers (on_splitStarts _ on.before on.tokens window member)

theorem lowers_caseOf (lowers : NestedLowers lines count nested) (on : window.On lines) :
    Lowers lines count Eq (caseOf nested window) (caseOf nested (window.lowered count)) := by
  unfold caseOf
  rw [show (window.lowered count).tokens = window.tokens.map (Token.lowered count) from rfl, splitKeyword_lowered]
  cases found : Token.splitKeyword .ofWord .caseWord .ofWord 0 window.tokens with
  | none => exact .here on _
  | some cut =>
    obtain ⟨inside, ofWord, after⟩ := Cut.forall_of_all (Token.splitKeyword_eq found) on.tokens
    refine (lowers.expression (Window.on_mk on.before inside)).bind ?_
    rintro predicate _ rfl
    refine (lowers_branches lowers (Window.on_mk ofWord.line after)).bind ?_
    rintro branches _ rfl
    exact .value _

theorem lowers_lambda (lowers : NestedLowers lines count nested) (on : window.On lines) :
    Lowers lines count Eq (lambda nested window) (lambda nested (window.lowered count)) := by
  have left := on.takeNames
  unfold lambda
  rw [takeNames_lowered]
  generalize window.takeNames = taken at left ⊢
  obtain ⟨names, rest⟩ := taken
  cases names with
  | nil =>
    dsimp only
    rw [Window.found_lowered]
    exact .here left _
  | cons name names =>
    refine (lowers_expect left .arrow .afterLambdaArguments).bind ?_
    rintro ⟨arrow, rest⟩ _ ⟨-, left, rfl⟩
    refine (lowers.expression left).bind ?_
    rintro body _ rfl
    exact .value _

theorem lowers_operand (lowers : NestedLowers lines count nested) (on : window.On lines) :
    Lowers lines count (Left lines count) (operand nested window) (operand nested (window.lowered count)) := by
  have atom := lowers_atom lowers on
  have finished := on.finished
  obtain ⟨before, tokens⟩ := window
  cases tokens with
  | nil => exact .here on _
  | cons token rest =>
    obtain ⟨own, later⟩ := List.forall_mem_cons.mp on.tokens
    have after : Window.On lines ⟨token.line, rest⟩ := ⟨own.line, later⟩
    have whole : ∀ value : Expression, Lowers lines count (Left lines count)
        (.ok (value, Window.finished ⟨before, token :: rest⟩))
        (.ok (value, Window.finished (Window.lowered count ⟨before, token :: rest⟩))) := by
      intro value
      rw [Window.finished_lowered]
      exact .left _ finished
    simp only [operand, Window.lowered, List.map_cons, Token.kind_lowered, Token.body_lowered]
    cases token.kind with
    | keyword word =>
      cases word with
      | ifWord =>
        refine (lowers_conditional lowers after).bind ?_
        rintro value _ rfl
        exact whole _
      | caseWord =>
        refine (lowers_caseOf lowers after).bind ?_
        rintro value _ rfl
        exact whole _
      | _ => exact atom
    | backslash =>
      refine (lowers_lambda lowers after).bind ?_
      rintro value _ rfl
      exact whole _
    | identifier =>
      refine .ite (fun _ => atom) fun _ => ?_
      refine (lowers_arguments lowers after).bind ?_
      rintro ⟨arguments, ending⟩ _ ⟨left, rfl⟩
      exact .left _ left
    | _ => exact atom

/-! ## Chains -/

theorem lowers_links (lowers : NestedLowers lines count nested) (comparing : Comparing) (on : window.On lines) :
    Lowers lines count (Left lines count) (links nested comparing window)
      (links nested comparing (window.lowered count)) := by
  induction size : window.tokens.length using Nat.strongRecOn generalizing comparing window with
  | _ size step =>
    obtain ⟨before, tokens⟩ := window
    rw [links_eq, links_eq]
    cases tokens with
    | nil => exact .left _ on
    | cons token rest =>
      obtain ⟨own, later⟩ := List.forall_mem_cons.mp on.tokens
      have after : Window.On lines ⟨token.line, rest⟩ := ⟨own.line, later⟩
      simp only [Window.lowered, List.map_cons, Token.kind_lowered]
      cases BinaryOperator.ofKind? token.kind with
      | none => exact .left _ on
      | some operator =>
        dsimp only
        cases comparing.chainedWith operator with
        | some first => exact .here on _
        | none =>
          refine (lowers_operand lowers after).bind_found ?_
          rintro ⟨operand, ending⟩ _ found ⟨left, rfl⟩
          have shorter : ending.tokens.length < rest.length := length_operand found
          have whole : rest.length + 1 = _ := size
          refine (step ending.tokens.length (by omega) _ left rfl).bind ?_
          rintro ⟨others, final⟩ _ ⟨left, rfl⟩
          exact .left _ left

/-- **An expression is read further down as it is here.** -/
theorem lowers_expressionStep (lowers : NestedLowers lines count nested) (on : window.On lines) :
    Lowers lines count Eq (expressionStep nested window) (expressionStep nested (window.lowered count)) := by
  unfold expressionStep
  refine (lowers_operand lowers on).bind ?_
  rintro ⟨first, ending⟩ _ ⟨left, rfl⟩
  refine (lowers_links lowers none left).bind ?_
  rintro ⟨links, final⟩ _ ⟨left, rfl⟩
  refine (lowers_expectEnd left _).bind ?_
  rintro _ _ rfl
  exact .value _

end

end DerwLang
