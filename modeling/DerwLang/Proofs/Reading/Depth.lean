/-
**Depth does not matter.**

The readers of the grammar nest as deep as their window weighs. Whatever is nested in a window weighs less than the window, so
readers of nested windows that agree on lighter windows lead to the same reading, be it a value or an error (`Alike`). Main
facts:

* `alike_at`: readers that nest at least as deep as a window weighs read it alike;
* `expression_eq`, `body_eq`: a whole window is read with the readers of whole windows for what is nested in it.
-/

import DerwLang.Proofs.Accepted.Complete
import DerwLang.Proofs.Indexed.Cursor
import DerwLang.Proofs.Reading.Unfolding

namespace DerwLang

open Grammar

/-! ## Lighter windows -/

/-- A window among those that tokens are cut into is as light as the tokens. -/
theorem light_of_mem {windows : List Window} {tokens : List Token} {before bound : Nat}
    (among : (windows.flatMap Window.tokens).Sublist tokens) (light : Window.weight ⟨before, tokens⟩ ≤ bound) :
    ∀ window ∈ windows, window.weight ≤ bound :=
  fun _ member => (Window.weight_le_of_sublist ((sublist_of_mem member).trans among)).trans light

theorem mapM_congr {α β : Type} {read other : α → Parsed β} {inputs : List α}
    (same : ∀ input ∈ inputs, read input = other input) : inputs.mapM read = inputs.mapM other := by
  induction inputs with
  | nil => rfl
  | cons input rest step =>
    rw [List.forall_mem_cons] at same
    rw [List.mapM_cons, List.mapM_cons, same.1, step same.2]

/-- Two ways to go on that agree on what is read lead to the same. -/
theorem bind_congr_of_ok {α β : Type} {read : Parsed α} {next other : α → Parsed β}
    (same : ∀ found, read = .ok found → next found = other found) : (read >>= next) = (read >>= other) := by
  cases read with
  | error error => rfl
  | ok found => exact same found rfl

/-! ## Readers that agree -/

/-- The readers agree on windows that weigh no more than the bound. -/
structure Alike (bound : Nat) (nested other : Nested) : Prop where
  expression : ∀ {window : Window}, window.weight ≤ bound → nested.expression window = other.expression window
  body : ∀ {window : Window}, window.weight ≤ bound → nested.body window = other.body window

section Alike

variable {bound before : Nat} {nested other : Nested} (alike : Alike bound nested other)

include alike

theorem alike_recordField (opening : Nat) {window : Window} (light : window.weight ≤ bound) :
    recordField nested opening window = recordField other opening window := by
  obtain ⟨before, tokens⟩ := window
  rcases tokens with _ | ⟨name, _ | ⟨colon, value⟩⟩
  · rfl
  · rfl
  · have among : value.Sublist (name :: colon :: value) := ((List.Sublist.refl value).cons colon).cons name
    have inner : Window.weight ⟨colon.line, value⟩ ≤ bound := (Window.weight_le_of_sublist among).trans light
    simp only [recordField, alike.expression inner]

theorem alike_recordFields (opening : Nat) {windows : List Window} (light : ∀ window ∈ windows, window.weight ≤ bound) :
    recordFields nested opening windows = recordFields other opening windows := by
  cases windows with
  | nil => rfl
  | cons window more =>
    have fields : ∀ windows : List Window, (∀ window ∈ windows, window.weight ≤ bound) →
        windows.mapM (recordField nested opening) = windows.mapM (recordField other opening) :=
      fun _ light => mapM_congr fun window member => alike_recordField alike opening (light window member)
    rw [recordFields, recordFields, fields _ light, fields _ (List.forall_mem_cons.mp light).2]

theorem alike_recordLiteral (opening : Token) {rest : List Token} (light : Window.weight ⟨before, rest⟩ ≤ bound) :
    recordLiteral nested opening rest = recordLiteral other opening rest := by
  rw [recordLiteral, recordLiteral]
  cases found : Token.splitClose .openCurly .closeCurly 0 rest with
  | none => rfl
  | some cut =>
    have inside := Cut.inside_sublist (Token.splitClose_eq found)
    have fields : recordFields nested opening.line (Window.splitOutside ⟨opening.line, cut.inside⟩ .comma) =
        recordFields other opening.line (Window.splitOutside ⟨opening.line, cut.inside⟩ .comma) :=
      alike_recordFields alike opening.line (light_of_mem ((separated_splitFrom _ _ _ _).sublist.trans inside) light)
    simp only [fields]

theorem alike_listLiteral {literal : Token} (light : literal.weight ≤ bound + 1) :
    listLiteral nested literal = listLiteral other literal := by
  have lighter : ∀ before, Window.weight ⟨before, Token.significant
      (tokenizeAt (unquote literal.body) literal.line (literal.column + 1))⟩ ≤ bound :=
    fun before => Nat.le_of_lt_succ ((weight_interior literal _ _ before).trans_le light)
  rw [listLiteral, listLiteral]
  generalize Token.significant (tokenizeAt (unquote literal.body) literal.line (literal.column + 1)) = tokens at lighter ⊢
  dsimp only
  split
  · rfl
  · cases Token.splitKind (.operator .range) tokens with
    | some cut => rfl
    | none =>
      have items : (Window.splitOutside ⟨lineOf tokens, tokens⟩ .comma).mapM (listItem nested literal.line) =
          (Window.splitOutside ⟨lineOf tokens, tokens⟩ .comma).mapM (listItem other literal.line) := by
        refine mapM_congr fun window member => ?_
        have light := light_of_mem (separated_splitFrom _ _ _ _).sublist (lighter 0) window member
        rw [listItem, listItem, alike.expression light]
      simp only [items]

/-- **An atom is read alike.** -/
theorem alike_atom {window : Window} (light : window.weight ≤ bound + 1) : atom nested window = atom other window := by
  obtain ⟨before, tokens⟩ := window
  cases tokens with
  | nil => rfl
  | cons token rest =>
    have later : ∀ before {inner : List Token}, inner.Sublist rest → Window.weight ⟨before, inner⟩ ≤ bound :=
      fun _ _ among => Window.light_of_sublist light among
    rw [atom, atom]
    dsimp only
    split
    case h_1 =>
      have own : token.weight ≤ bound + 1 := (Nat.le_add_right _ _).trans light
      simp only [alike_listLiteral alike own]
    case h_4 =>
      cases found : Token.splitClose .openBracket .closeBracket 0 rest with
      | none => rfl
      | some cut =>
        have inside := later token.line (Cut.inside_sublist (Token.splitClose_eq found))
        simp only [alike.expression inside]
    case h_5 => simp only [alike_recordLiteral alike token (later 0 (List.Sublist.refl rest))]
    case h_6 =>
      cases rest with
      | nil => rfl
      | cons next more =>
        simp only [alike_recordLiteral alike next (later 0 (List.sublist_cons_self next more))]
    all_goals rfl

/-! ## Constructs -/

theorem alike_conditional {window : Window} (light : window.weight ≤ bound) :
    conditional nested window = conditional other window := by
  have within : ∀ before {inner : List Token}, inner.Sublist window.tokens → Window.weight ⟨before, inner⟩ ≤ bound :=
    fun _ _ among => (Window.weight_le_of_sublist among).trans light
  rw [conditional, conditional]
  cases isThen : Token.splitKeyword .thenWord .ifWord .elseWord 0 window.tokens with
  | none => rfl
  | some predicate =>
    have whole := Token.splitKeyword_eq isThen
    dsimp only
    cases isElse : Token.splitKeyword .elseWord .ifWord .elseWord 0 predicate.after with
    | none => rfl
    | some yes =>
      have further := Token.splitKeyword_eq isElse
      have after := (Cut.after_suffix whole).sublist
      simp only [alike.expression (within window.before (Cut.inside_sublist whole)),
        alike.body (within predicate.token.line ((Cut.inside_sublist further).trans after)),
        alike.body (within yes.token.line ((Cut.after_suffix further).sublist.trans after))]

theorem alike_branch {window : Window} (light : window.weight ≤ bound) : branch nested window = branch other window := by
  rw [branch, branch]
  cases found : Token.splitKind .arrow window.tokens with
  | none => rfl
  | some cut =>
    have after : Window.weight ⟨cut.token.line, cut.after⟩ ≤ bound :=
      (Window.weight_le_of_sublist (Cut.after_suffix (Token.splitKind_eq found)).sublist).trans light
    simp only [alike.body after]

theorem alike_branches {window : Window} (light : window.weight ≤ bound) :
    branches nested window = branches other window := by
  obtain ⟨before, tokens⟩ := window
  cases tokens with
  | nil => rfl
  | cons first rest =>
    refine mapM_congr fun part member => alike_branch alike (light_of_mem ?_ light part member)
    rw [flatMap_splitStarts]

theorem alike_caseOf {window : Window} (light : window.weight ≤ bound) : caseOf nested window = caseOf other window := by
  rw [caseOf, caseOf]
  cases isOf : Token.splitKeyword .ofWord .caseWord .ofWord 0 window.tokens with
  | none => rfl
  | some cut =>
    have whole := Token.splitKeyword_eq isOf
    have inside : Window.weight ⟨window.before, cut.inside⟩ ≤ bound :=
      (Window.weight_le_of_sublist (Cut.inside_sublist whole)).trans light
    have after : Window.weight ⟨cut.token.line, cut.after⟩ ≤ bound :=
      (Window.weight_le_of_sublist (Cut.after_suffix whole).sublist).trans light
    simp only [alike.expression inside, alike_branches alike after]

theorem alike_lambda {window : Window} (light : window.weight ≤ bound) : lambda nested window = lambda other window := by
  have names := (consumes_takeNames window).suffix
  rw [lambda, lambda]
  split
  · rfl
  · rename_i parameters rest _ taken
    rw [taken] at names
    refine bind_congr_of_ok fun found expected => ?_
    have left := (consumes_expect expected rfl).suffix
    have inner : found.2.weight ≤ bound := (Window.weight_le_of_sublist (left.trans names).sublist).trans light
    dsimp only
    rw [alike.expression inner]

/-! ## Chains -/

variable (completes : Completes nested)

include completes

theorem alike_arguments {window : Window} (light : window.weight ≤ bound + 1) :
    arguments nested window = arguments other window := by
  fun_induction arguments nested window with
  | case1 window starts error found =>
    rw [arguments_eq other, if_pos starts, ← alike_atom alike light, found]
    rfl
  | case2 window starts first after found step =>
    have left := (consumes_atom completes (atom_rule found)).suffix
    rw [arguments_eq other, if_pos starts, ← alike_atom alike light, found,
      step ((Window.weight_le_of_sublist left.sublist).trans light)]
    rfl
  | case3 window starts => rw [arguments_eq other, if_neg starts]

/-- **An operand is read alike.** -/
theorem alike_operand {window : Window} (light : window.weight ≤ bound + 1) :
    operand nested window = operand other window := by
  obtain ⟨before, tokens⟩ := window
  cases tokens with
  | nil => rfl
  | cons token rest =>
    have later : Window.weight ⟨token.line, rest⟩ ≤ bound := Window.light_of_sublist light (List.Sublist.refl rest)
    rw [operand, operand]
    dsimp only
    split
    case h_1 => rw [alike_conditional alike later]
    case h_2 => rw [alike_caseOf alike later]
    case h_3 => rw [alike_lambda alike later]
    case h_4 => rw [alike_atom alike light, alike_arguments alike completes (later.trans (Nat.le_succ _))]
    case h_5 => exact alike_atom alike light

theorem alike_links {comparing : Comparing} {window : Window} (light : window.weight ≤ bound + 1) :
    links nested comparing window = links other comparing window := by
  have later : ∀ {window : Window} {token : Token} {rest : List Token}, window.tokens = token :: rest →
      window.weight ≤ bound + 1 → Window.weight ⟨token.line, rest⟩ ≤ bound + 1 := by
    intro window token rest tokens light
    refine (Window.weight_le_of_sublist ?_).trans light
    rw [tokens]
    exact List.sublist_cons_self token rest
  fun_induction links nested comparing window with
  | case1 comparing window tokens => rw [links_eq other, tokens]
  | case2 comparing window token rest tokens isOther =>
    rw [links_eq other, tokens]
    simp only [isOther]
  | case3 comparing window token rest tokens operator isOperator compared chained =>
    rw [links_eq other, tokens]
    simp only [isOperator, chained]
  | case4 comparing window token rest tokens operator isOperator unchained error found =>
    rw [links_eq other, tokens]
    simp only [isOperator, unchained, ← alike_operand alike completes (later tokens light), found]
    rfl
  | case5 comparing window token rest tokens operator isOperator unchained value after found step =>
    have left := (consumes_operand completes (operand_rule found)).suffix
    rw [links_eq other, tokens]
    simp only [isOperator, unchained, ← alike_operand alike completes (later tokens light), found,
      step ((Window.weight_le_of_sublist left.sublist).trans (later tokens light))]
    rfl

/-- **An expression is read alike.** -/
theorem alike_expressionStep {window : Window} (light : window.weight ≤ bound + 1) :
    expressionStep nested window = expressionStep other window := by
  rw [expressionStep, expressionStep, ← alike_operand alike completes light]
  refine bind_congr_of_ok fun found one => ?_
  have left := (consumes_operand completes (operand_rule one)).suffix
  dsimp only
  rw [alike_links alike completes ((Window.weight_le_of_sublist left.sublist).trans light)]

/-! ## Definitions -/

omit completes in
theorem alike_definition {name : Token} {window : Window} (light : window.weight ≤ bound) :
    definition nested.body name window = definition other.body name window := by
  rw [definition, definition]
  refine bind_congr_of_ok fun found announced => ?_
  obtain ⟨types?, rest⟩ := found
  have front := (consumes_signature (optionalSignature_rule announced)).trans (consumes_takeNames rest)
  refine bind_congr_of_ok fun found signed => ?_
  have left := (front.trans (consumes_expect signed rfl)).suffix
  have inner : found.2.weight ≤ bound := (Window.weight_le_of_sublist left.sublist).trans light
  dsimp only
  rw [alike.body inner]

omit completes in
theorem alike_blockWith {window : Window} (light : window.weight ≤ bound) :
    blockWith nested.body window = blockWith other.body window := by
  obtain ⟨before, tokens⟩ := window
  cases tokens with
  | nil => rfl
  | cons token rest =>
    have later : Window.weight ⟨token.line, rest⟩ ≤ bound :=
      (Window.weight_le_of_sublist (List.sublist_cons_self token rest)).trans light
    rw [blockWith, blockWith]
    dsimp only
    rw [alike_definition alike later]

omit completes in
theorem alike_localDefinitions {window : Window} (light : window.weight ≤ bound) :
    localDefinitions nested.body window = localDefinitions other.body window := by
  have each : ∀ part ∈ splitBlocks window, localDefinition nested.body part = localDefinition other.body part := by
    intro part member
    have among : ((splitBlocks window).flatMap Window.tokens).Sublist window.tokens := by rw [flatMap_splitBlocks]
    rw [localDefinition, localDefinition, alike_blockWith alike (light_of_mem among light part member)]
  rw [localDefinitions, localDefinitions, mapM_congr each]

/-- **A body is read alike.** -/
theorem alike_bodyStep {window : Window} (light : window.weight ≤ bound + 1) :
    bodyStep nested window = bodyStep other window := by
  have whole := alike_expressionStep alike completes light
  obtain ⟨before, tokens⟩ := window
  cases tokens with
  | nil => rfl
  | cons token rest =>
    rw [bodyStep, bodyStep, whole]
    dsimp only
    cases isIn : Token.splitKeyword .inWord .letWord .inWord 0 rest with
    | none => rfl
    | some cut =>
      have all := Token.splitKeyword_eq isIn
      have inside : Window.weight ⟨token.line, cut.inside⟩ ≤ bound :=
        Window.light_of_sublist light (Cut.inside_sublist all)
      have after : Window.weight ⟨cut.token.line, cut.after⟩ ≤ bound :=
        Window.light_of_sublist light (Cut.after_suffix all).sublist
      simp only [alike_localDefinitions alike inside, alike.expression after]

end Alike

/-! ## The knot -/

/-- **Readers that nest at least as deep as a window weighs read it alike.** -/
theorem alike_at {bound depth other : Nat} (enough : bound ≤ depth) (otherEnough : bound ≤ other) :
    Alike bound ⟨expressionAt depth, bodyAt depth⟩ ⟨expressionAt other, bodyAt other⟩ := by
  induction bound generalizing depth other with
  | zero =>
    -- only a window without tokens weighs nothing, and it is refused at any depth
    have refused : ∀ depth before : Nat,
        expressionAt depth ⟨before, []⟩ = .error ⟨.missingExpression, before⟩ ∧
          bodyAt depth ⟨before, []⟩ = .error ⟨.missingExpression, before⟩ := by
      intro depth before
      cases depth <;> exact ⟨rfl, rfl⟩
    constructor <;>
      · intro window light
        rw [Window.nil_of_weight light]
        simp only [refused]
  | succ bound step =>
    obtain ⟨depth, rfl⟩ := Nat.exists_eq_add_of_le' enough
    obtain ⟨other, rfl⟩ := Nat.exists_eq_add_of_le' otherEnough
    have nested := step (Nat.le_add_left bound depth) (Nat.le_add_left bound other)
    constructor
    · intro window light
      exact alike_expressionStep nested (completes_at _) light
    · intro window light
      exact alike_bodyStep nested (completes_at _) light

/-- The readers of whole windows nest deep enough for what is nested in a window. -/
theorem alike_nested (depth : Nat) : Alike depth ⟨expressionAt depth, bodyAt depth⟩ ⟨Grammar.expression, Grammar.body⟩ :=
  ⟨fun light => (alike_at light (Nat.le_refl _)).expression (Nat.le_refl _),
    fun light => (alike_at light (Nat.le_refl _)).body (Nat.le_refl _)⟩

/-- The readers that nest once more than a window weighs read it as the readers of whole windows do. -/
theorem alike_deeper (window : Window) :
    Grammar.expression window = expressionAt (window.weight + 1) window ∧
      Grammar.body window = bodyAt (window.weight + 1) window :=
  have alike := alike_at (Nat.le_refl window.weight) (Nat.le_succ _)
  ⟨alike.expression (Nat.le_refl _), alike.body (Nat.le_refl _)⟩

/-- **A whole window is read as an expression with the readers of whole windows** for what is nested in it. -/
theorem expression_eq (window : Window) :
    Grammar.expression window = expressionStep ⟨Grammar.expression, Grammar.body⟩ window := by
  rw [(alike_deeper window).1, expressionAt]
  exact alike_expressionStep (alike_nested _) (completes_at _) (Nat.le_succ _)

/-- **A whole window is read as a body with the readers of whole windows** for what is nested in it. -/
theorem body_eq (window : Window) : Grammar.body window = bodyStep ⟨Grammar.expression, Grammar.body⟩ window := by
  rw [(alike_deeper window).2, bodyAt]
  exact alike_bodyStep (alike_nested _) (completes_at _) (Nat.le_succ _)

end DerwLang
