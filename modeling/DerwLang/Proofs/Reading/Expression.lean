/-
**Written expressions are read back.**

What is left of expressions are the forms that reach to the end of their window. Conditionals and cases are cut at their
reserved words, branches at the lines they start on, and all of their parts are nested. Main facts:

* `reads_branch`: a branch is read back;
* `read_expression`: so is any expression, when smaller ones are.
-/

import DerwLang.Proofs.Reading.Chain
import DerwLang.Proofs.Reading.Lines
import DerwLang.Proofs.Reading.Pattern

namespace DerwLang

open Grammar Layout

namespace Written

open Doc

variable {nested : Nested} {size level : Nat}

/-! ## Words with nested parts -/

/-- The words of a conditional. -/
theorem tokens_conditional (test yes no : Doc) {position : Position} (indented : Indented level position) :
    ∃ first second third place yesPlace noPlace, first.kind = .keyword .ifWord ∧ second.kind = .keyword .thenWord ∧
      third.kind = .keyword .elseWord ∧ Indented level place ∧ Indented (level + 1) yesPlace ∧
      Indented (level + 1) noPlace ∧
      (((above ((keyword .ifWord).beside (test.beside (keyword .thenWord))) yes).under false 0
          (above (keyword .elseWord) no)).shift level).tokens position =
        first :: ((test.shift level).tokens place ++ second :: ((yes.shift (level + 1)).tokens yesPlace ++
          third :: (no.shift (level + 1)).tokens noPlace)) := by
  let place := (position.after "if".toList).step ' '
  let second := (place.after (test.shift level).chars).step ' '
  let yesPlace := (second.after "then".toList).after (lineChars false (4 + 4 * level))
  let third := (yesPlace.after (yes.shift (level + 1)).chars).after (lineChars false (0 + 4 * level))
  let noPlace := (third.after "else".toList).after (lineChars false (4 + 4 * level))
  refine ⟨placed (.keyword .ifWord) "if".toList position, placed (.keyword .thenWord) "then".toList second,
    placed (.keyword .elseWord) "else".toList third, place, yesPlace, noPlace, rfl, rfl, rfl,
    (indented.flat (by decide)).step (by decide), .deeper false, .deeper false, ?_⟩
  simp [keyword, Keyword.spelling, under, beside, single, Doc.tokens, placed, place, second, yesPlace, third, noPlace,
    after_append, after_cons]

/-- The words of a case. The branches start a line. -/
theorem tokens_caseOf (value branches : Doc) {position : Position} (indented : Indented level position) :
    ∃ first second place branchPlace, first.kind = .keyword .caseWord ∧ second.kind = .keyword .ofWord ∧
      Indented level place ∧ branchPlace.column = 4 * (level + 1) + 1 ∧
      ((above ((keyword .caseWord).beside (value.beside (keyword .ofWord))) branches).shift level).tokens position =
        first :: ((value.shift level).tokens place ++ second :: (branches.shift (level + 1)).tokens branchPlace) := by
  let place := (position.after "case".toList).step ' '
  let second := (place.after (value.shift level).chars).step ' '
  let branchPlace := (second.after "of".toList).after (lineChars false (4 + 4 * level))
  refine ⟨placed (.keyword .caseWord) "case".toList position, placed (.keyword .ofWord) "of".toList second,
    place, branchPlace, rfl, rfl, (indented.flat (by decide)).step (by decide), ?_, ?_⟩
  · simp only [branchPlace, after_lineChars]
    omega
  · simp [keyword, Keyword.spelling, under, beside, single, Doc.tokens, placed, place, second, branchPlace, after_append,
      after_cons]

/-- The words of a document that stands below another one. -/
theorem tokens_above (first second : Doc) (level : Nat) (position : Position) :
    ∃ place, Indented (level + 1) place ∧ ((above first second).shift level).tokens position =
      (first.shift level).tokens position ++ (second.shift (level + 1)).tokens place := by
  refine ⟨(position.after (first.shift level).chars).after (lineChars false (4 + 4 * level)), .deeper false, ?_⟩
  simp [under, Doc.tokens]

/-- The words of a document with a sign after it. -/
theorem tokens_signed (first : Doc) (kind : Token.Kind) (own : List Char) (level : Nat) (position : Position) :
    ∃ sign, sign.kind = kind ∧ ((first.beside (single kind own)).shift level).tokens position =
      (first.shift level).tokens position ++ [sign] := by
  refine ⟨placed kind (deepen^[level] own) ((position.after (first.shift level).chars).step ' '), rfl, ?_⟩
  simp [beside, single, Doc.tokens, placed]

/-! ## Branches -/

/-- The document of a branch. -/
def branchDoc (branch : Branch) : Doc :=
  above ((pattern branch.pattern).beside (single .arrow ['-', '>'])) (bodyOf branch.body)

/-- A pattern is on one line. -/
theorem hanging_pattern {shape : Pattern} (sound : Sound.Pattern shape) : (pattern shape).Hanging := by
  have tagged : ∀ {shape : TagPattern}, Sound.TagPattern shape → (tagPattern shape).Hanging := fun sound =>
    (flat_tagPattern sound).hanging
  cases shape with
  | tag shape => exact tagged sound
  | list parts =>
    refine hanging_joined (fun first second one two => ?_) (List.forall_mem_map.mpr fun part member => ?_)
    · simp [conses, beside, single, Doc.Hanging, one, two]
    · cases part with
      | name name => exact (flat_words (sound.2.1 _ member).1).hanging
      | tag shape => exact tagged (sound.2.1 _ member)
      | _ => trivial
  | _ => trivial

theorem hangs_branch {branch : Branch} (sound : Sound.Pattern branch.pattern) : (branchDoc branch).Hangs where
  starts := by
    rw [branchDoc, above, chars_under, chars_beside, List.append_assoc]
    have phrase : Phrase false (pattern branch.pattern) := phrase_pattern sound
    exact phrase.solid.1.append _
  hanging := by
    simp [branchDoc, above, under, beside, single, Doc.Hanging, hanging_pattern sound, (bodyOf branch.body).hanging_shift 0]

/-- **A branch is read back.** -/
theorem reads_branch (ready : Ready nested size) {branch : Branch} (soundPattern : Sound.Pattern branch.pattern)
    (soundBody : branch.body.Everywhere Sound.checks) (fits : (bodyOf branch.body).size ≤ size) :
    Reads (Grammar.branch nested) (branchDoc branch) fun level =>
      ⟨Settled.pattern level branch.pattern, Settled.body (level + 1) branch.body⟩ := by
  intro level before position indented
  obtain ⟨place, right, tokens⟩ :=
    tokens_above ((pattern branch.pattern).beside (single .arrow ['-', '>'])) (bodyOf branch.body) level position
  obtain ⟨arrow, isArrow, ahead⟩ := tokens_signed (pattern branch.pattern) .arrow ['-', '>'] level position
  have absent : ∀ token ∈ ((pattern branch.pattern).shift level).tokens position, token.kind ≠ .arrow := by
    intro token member same
    have kind := kind_mem member
    rw [kinds_shift, same] at kind
    exact no_arrow_pattern soundPattern kind
  rw [branchDoc, tokens, ahead, List.append_assoc, List.singleton_append, Grammar.branch]
  simp only [Token.splitKind_append absent isArrow]
  rw [read_pattern soundPattern level before position indented,
    show nested.body _ = _ from ready.body soundBody fits (level + 1) arrow.line place right]
  rfl

/-! ## Forms that reach to the end -/

/-- An operand that reaches to the end of its window is the whole expression. -/
theorem expressionStep_finished {window : Window} {value : Expression}
    (read : Grammar.operand nested window = .ok (value, window.finished)) : expressionStep nested window = .ok value := by
  rw [expressionStep, read]
  simp only [bind, Except.bind, Window.finished]
  rw [links_nil]
  rfl

/-- **A conditional is read back.** -/
theorem read_conditional (ready : Ready nested size) {predicate : Expression} {whenTrue whenFalse : Body}
    (sound : (Expression.conditional predicate whenTrue whenFalse).Everywhere Sound.checks)
    (fits : (expression (.conditional predicate whenTrue whenFalse)).size ≤ size + 1) :
    Reads (expressionStep nested) (expression (.conditional predicate whenTrue whenFalse)) fun level =>
      Settled.expression level (.conditional predicate whenTrue whenFalse) := by
  rw [everywhere_conditional] at sound
  obtain ⟨-, soundTest, soundYes, soundNo⟩ := sound
  rw [expression] at fits
  simp only [above, under, beside, keyword, single, Doc.size, size_append, size_shift] at fits
  intro level before position indented
  obtain ⟨first, second, third, place, yesPlace, noPlace, isIf, isThen, isElse, right, yesRight, noRight, tokens⟩ :=
    tokens_conditional (expression predicate) (bodyOf whenTrue) (bodyOf whenFalse) indented
  have test := ((fits_expression soundTest).2.shift level).balanced place
  have yes := ((fits_body soundYes).2.shift (level + 1)).balanced yesPlace
  rw [expression, tokens]
  refine expressionStep_finished ?_
  rw [Grammar.operand]
  simp only [isIf]
  rw [conditional]
  simp only [test.splitKeyword_word .thenWord isThen, yes.splitKeyword_word .elseWord isElse]
  rw [ready.expression soundTest (by omega) level _ place right,
    show nested.body ⟨second.line, _⟩ = _ from ready.body soundYes (by omega) (level + 1) second.line yesPlace yesRight]
  simp only [bind, Except.bind]
  rw [show nested.body ⟨third.line, _⟩ = _ from ready.body soundNo (by omega) (level + 1) third.line noPlace noRight]
  rfl

/-- **A case is read back.** -/
theorem read_caseOf (ready : Ready nested size) {predicate : Expression} {cases : List Branch}
    (sound : (Expression.caseOf predicate cases).Everywhere Sound.checks)
    (fits : (expression (.caseOf predicate cases)).size ≤ size + 1) :
    Reads (expressionStep nested) (expression (.caseOf predicate cases)) fun level =>
      Settled.expression level (.caseOf predicate cases) := by
  rw [everywhere_caseOf] at sound
  obtain ⟨some_, soundValue, soundCases⟩ := sound
  have docs : branches cases = cases.map branchDoc := branches_eq cases
  rw [expression, docs] at fits
  simp only [above, under, beside, keyword, single, Doc.size, size_append, size_shift] at fits
  have fitsBody : ∀ branch ∈ cases, (bodyOf branch.body).size ≤ size := by
    intro branch member
    have within : (branchDoc branch).size ≤ (joined blankLines (cases.map branchDoc)).size :=
      le_joined (fun first second => by simp [blankLines, under, Doc.size]) (List.mem_map_of_mem member)
    simp only [branchDoc, above, under, beside, single, Doc.size, size_append, size_shift] at within
    omega
  intro level before position indented
  obtain ⟨first, second, place, branchPlace, isCase, isOf, right, column, tokens⟩ :=
    tokens_caseOf (expression predicate) (joined blankLines (cases.map branchDoc)) indented
  have value := ((fits_expression soundValue).2.shift level).balanced place
  rw [expression, docs, tokens]
  refine expressionStep_finished ?_
  rw [Grammar.operand]
  simp only [isCase]
  rw [caseOf]
  simp only [value.splitKeyword_word .ofWord isOf]
  rw [ready.expression soundValue (by omega) level _ place right]
  have read : Grammar.branches nested ⟨second.line,
      ((joined blankLines (cases.map branchDoc)).shift (level + 1)).tokens branchPlace⟩ =
        .ok (Settled.branches (level + 1) cases) := by
    cases cases with
    | nil => exact absurd rfl some_
    | cons branch more =>
      have hangs : ∀ other ∈ (more.map branchDoc).map fun doc => (true, doc), other.2.Hangs := by
        simp only [List.forall_mem_map]
        exact fun other member => hangs_branch (soundCases other (List.mem_cons_of_mem _ member)).1
      obtain ⟨token, rest, start, -, same, cut⟩ :=
        holds_starts (hangs_branch (soundCases branch List.mem_cons_self).1) hangs column
      rw [List.map_cons, joined_blankLines, start, Grammar.branches]
      simp only
      rw [same, column]
      have windows : List.Forall₂ (Holds (level + 1)) (Window.splitStarts (4 * (level + 1) + 1) second.line token rest)
          ((branch :: more).map branchDoc) := by
        simpa [Function.comp_def] using cut second.line
      rw [mapM_holds windows fun other member =>
        reads_branch ready (soundCases other member).1 (soundCases other member).2 (fitsBody other member),
        Settled.branches_eq]
  simp only [bind, Except.bind]
  rw [read]
  rfl

/-! ### Lambdas -/

/-- **Names are taken up to the first word that is no name.** -/
theorem takes_names (level : Nat) {names : List String} (sound : ∀ name ∈ names, Sound.Name name) {next : Token}
    (other : next.kind ≠ .identifier) (more : List Token) (before : Nat) (position : Position) :
    ∃ line, Window.namesFrom before (((spaced (names.map words)).shift level).tokens position ++ next :: more) =
      (names, ⟨line, next :: more⟩) := by
  induction names generalizing before position with
  | nil => exact ⟨before, by simp [spaced, Window.namesFrom, other]⟩
  | cons name rest step =>
    rw [List.forall_mem_cons] at sound
    obtain ⟨line, later⟩ := step sound.2 (position.step ' ').line ((position.step ' ').after name.toList)
    refine ⟨line, ?_⟩
    rw [List.map_cons, spaced, shift_space, Doc.tokens, tokens_named sound.1, List.cons_append, Window.namesFrom]
    simp [later]

/-- Names with spaces between them are taken as well. -/
theorem takes_names_beside (level : Nat) {names : List String} (sound : ∀ name ∈ names, Sound.Name name) {next : Token}
    (other : next.kind ≠ .identifier) (more : List Token) (before : Nat) (position : Position) :
    ∃ line, Window.takeNames ⟨before, ((joined beside (names.map words)).shift level).tokens position ++ next :: more⟩ =
      (names, ⟨line, next :: more⟩) := by
  cases names with
  | nil => exact ⟨before, by simp [joined, Window.takeNames, Window.namesFrom, other]⟩
  | cons name rest =>
    rw [List.forall_mem_cons] at sound
    obtain ⟨line, later⟩ := takes_names level sound.2 other more position.line (position.after name.toList)
    refine ⟨line, ?_⟩
    rw [List.map_cons, joined_beside, tokens_named sound.1, List.cons_append, Window.takeNames, Window.namesFrom]
    simp [later]

theorem expect_of_kind {token : Token} {kind : Token.Kind} (same : token.kind = kind) (before : Nat)
    (more : List Token) (place : Requirement) :
    Window.expect ⟨before, token :: more⟩ kind place = .ok (token, ⟨token.line, more⟩) := by
  simp [Window.expect, same]

/-- **A lambda is read back.** -/
theorem read_lambda (ready : Ready nested size) {parameters : List String} {result : Expression}
    (sound : (Expression.lambda ⟨parameters, result⟩).Everywhere Sound.checks)
    (fits : (expression (.lambda ⟨parameters, result⟩)).size ≤ size + 1) :
    Reads (expressionStep nested) (expression (.lambda ⟨parameters, result⟩)) fun level =>
      Settled.expression level (.lambda ⟨parameters, result⟩) := by
  rw [everywhere_lambda] at sound
  obtain ⟨⟨some_, areNames⟩, soundResult⟩ := sound
  rw [expression] at fits
  simp only [beside, single, Doc.size, size_append] at fits
  have phrase : Phrase false (joined beside (parameters.map words)) := phrase_spacedNames some_ areNames
  intro level before position indented
  obtain ⟨arrow, place, isArrow, right, tokens⟩ := separates_sign .arrow ['-', '>'] (by decide)
    phrase.firm (expression result) (indented.step (c := '\\') (by decide))
  obtain ⟨line, names⟩ := takes_names_beside level areNames (show arrow.kind ≠ .identifier by simp [isArrow])
    (((expression result).shift level).tokens place) position.line (position.step '\\')
  have start : ((expression (.lambda ⟨parameters, result⟩)).shift level).tokens position =
      placed .backslash ['\\'] position :: (((joined beside (parameters.map words)).shift level).tokens (position.step '\\') ++
        arrow :: ((expression result).shift level).tokens place) := by
    rw [expression, shift_word, iterate_flat (by decide), Doc.tokens, ← tokens]
    rfl
  rw [start]
  refine expressionStep_finished ?_
  rw [Grammar.operand]
  simp only [placed]
  have body := ready.expression soundResult (by omega) level arrow.line place right
  cases parameters with
  | nil => exact absurd rfl some_
  | cons parameter more =>
    rw [lambda, names]
    simp only [expect_of_kind isArrow, body, bind, Except.bind, pure, Except.pure]
    rfl

/-! ## All expressions -/

/-- **An expression is read back**, when smaller ones are. -/
theorem read_expression (ready : Ready nested size) {item : Expression} (sound : item.Everywhere Sound.checks)
    (fits : (expression item).size ≤ size + 1) :
    Reads (expressionStep nested) (expression item) fun level => Settled.expression level item := by
  cases item with
  | conditional predicate whenTrue whenFalse => exact read_conditional ready sound fits
  | caseOf predicate cases => exact read_caseOf ready sound fits
  | lambda function =>
    obtain ⟨parameters, result⟩ := function
    exact read_lambda ready sound fits
  | lambdaCall _ _ => exact sound.here.elim
  | _ => exact read_row ready sound rfl fits

end Written

end DerwLang
