/-
**Written bodies are read back.**

A body is an expression, perhaps after the definitions that are local to it, which are cut apart by where their lines start.
With bodies the readers of nested windows are complete, so that what they read follows by induction on how deep they go:

* `ready_at`: readers that go deep enough read what is written;
* `reads_expression`, `reads_body`: the readers of the grammar do.
-/

import DerwLang.Proofs.Reading.Definition

namespace DerwLang

open Grammar Layout

namespace Written

open Doc

variable {nested : Nested} {size level : Nat}

/-! ## Without local definitions -/

/-- An expression is a body without local definitions. -/
theorem bodyStep_expression {window : Window} {value : Expression} (read : expressionStep nested window = .ok value) :
    bodyStep nested window = .ok ⟨[], value⟩ := by
  obtain ⟨before, tokens⟩ := window
  cases tokens with
  | nil => exact absurd read (by simp [expressionStep, Grammar.operand, Window.error, bind, Except.bind])
  | cons token rest =>
    have noLet : token.kind ≠ .keyword .letWord := by
      intro isLet
      have failed : Grammar.operand nested ⟨before, token :: rest⟩ = .error ⟨.noExpression token.body, token.line⟩ := by
        rw [Grammar.operand]
        simp only [isLet]
        rw [atom]
        simp only [isLet]
      rw [expressionStep, failed] at read
      simp [bind, Except.bind] at read
    rw [bodyStep]
    simp only [beq_iff_eq, noLet, if_false, read]
    rfl

/-! ## Local definitions -/

/-- The words of a body after its local definitions. -/
theorem tokens_letIn (locals result : Doc) (level : Nat) (position : Position) :
    ∃ first second localsPlace resultPlace, first.kind = .keyword .letWord ∧ second.kind = .keyword .inWord ∧
      localsPlace.column = 4 * (level + 1) + 1 ∧ Indented (level + 1) resultPlace ∧
      (((above (keyword .letWord) locals).under false 0 (above (keyword .inWord) result)).shift level).tokens position =
        first :: ((locals.shift (level + 1)).tokens localsPlace ++
          second :: (result.shift (level + 1)).tokens resultPlace) := by
  let localsPlace := (position.after "let".toList).after (lineChars false (4 + 4 * level))
  let second := (localsPlace.after (locals.shift (level + 1)).chars).after (lineChars false (0 + 4 * level))
  let resultPlace := (second.after "in".toList).after (lineChars false (4 + 4 * level))
  refine ⟨placed (.keyword .letWord) "let".toList position, placed (.keyword .inWord) "in".toList second, localsPlace,
    resultPlace, rfl, rfl, ?_, .deeper false, ?_⟩
  · simp only [localsPlace, after_lineChars]
    omega
  · simp [keyword, Keyword.spelling, under, single, Doc.tokens, placed, localsPlace, second, resultPlace, after_cons]

/-- A definition goes on to its end. -/
theorem declares_definition {declaration : Block} (sound : declaration.Everywhere Sound.checks)
    (isDefinition : isDefinition declaration = true) : (block declaration).Declares := by
  cases declaration with
  | function definition =>
    obtain ⟨name, returnType, parameters, result⟩ := definition
    obtain ⟨isName, returns, declared⟩ := sound.1
    have areNames := List.forall_mem_cons.mpr ⟨isName, declared.names.2⟩
    rw [block_function]
    cases (parameters.map Parameter.type ++ [returnType]).all Ty.isAny with
    | true => exact declares_plainDefinition areNames result
    | false => exact declares_signedDefinition areNames (declared.annotation returns) result
  | constant definition =>
    obtain ⟨name, type, result⟩ := definition
    obtain ⟨isName, annotation⟩ := sound.1
    rw [block_constant]
    cases type.isAny with
    | true => exact declares_plainDefinition (by simpa using isName) result
    | false => exact declares_signedDefinition (by simpa using isName) annotation result
  | _ => simp [Grammar.isDefinition] at isDefinition

theorem isDefinition_settled (level : Nat) (declaration : Block) :
    isDefinition (Settled.block level declaration) = isDefinition declaration := by
  cases declaration with
  | function definition => cases definition; rw [Settled.block]; rfl
  | constant definition => cases definition; rw [Settled.block]; rfl
  | _ => rfl

/-- **A local definition is read back.** -/
theorem reads_local (ready : Ready nested size) {declaration : Block} (sound : declaration.Everywhere Sound.checks)
    (isDefinition : isDefinition declaration = true) (fits : (block declaration).size ≤ size) :
    Reads (localDefinition nested.body) (block declaration) fun level => Settled.block level declaration := by
  have size_signed : ∀ known name t result arguments,
      (bodyOf result).size ≤ (signed known name t (plainDefinition name arguments result)).size := by
    intro known name t result arguments
    cases known with
    | false => simp [signed, plainDefinition, above, under, beside, Doc.size]
    | true =>
      simp [signed, plainDefinition, above, under, beside, Doc.size]
      omega
  have kept : ∀ {window : Window} {read : Block}, blockWith nested.body window = .ok read →
      Grammar.isDefinition read = true → localDefinition nested.body window = .ok read := by
    intro window read same defines
    rw [localDefinition, same]
    simp [bind, Except.bind, defines, pure, Except.pure]
  intro level before position indented
  cases declaration with
  | function definition =>
    obtain ⟨name, returnType, parameters, result⟩ := definition
    rw [block_function] at fits
    have reads := ready.body sound.2 (Nat.le_trans (size_signed _ _ _ _ _) fits)
    exact kept (read_function sound.1 reads level before position indented)
      ((isDefinition_settled level _).trans isDefinition)
  | constant definition =>
    obtain ⟨name, type, result⟩ := definition
    rw [block_constant] at fits
    have reads := ready.body sound.2 (Nat.le_trans (size_signed _ _ _ _ _) fits)
    exact kept (read_constant sound.1 reads level before position indented)
      ((isDefinition_settled level _).trans isDefinition)
  | _ => simp [Grammar.isDefinition] at isDefinition

/-- **Local definitions are read back.** -/
theorem read_locals (ready : Ready nested size) {locals : List Block} (some_ : locals ≠ [])
    (sound : ∀ declaration ∈ locals, declaration.Everywhere Sound.checks)
    (areDefinitions : ∀ declaration ∈ locals, isDefinition declaration = true)
    (fits : (joined blankLines (blocks locals)).size ≤ size) {position : Position}
    (column : position.column = 4 * level + 1) (before : Nat) :
    localDefinitions nested.body ⟨before, ((joined blankLines (blocks locals)).shift level).tokens position⟩ =
      .ok (Settled.blocks level locals) := by
  rw [blocks_eq] at fits ⊢
  have within : ∀ declaration ∈ locals, (block declaration).size ≤ size := fun declaration member =>
    Nat.le_trans (le_joined (fun first second => by simp [blankLines, under, Doc.size]) (List.mem_map_of_mem member)) fits
  have declares : ∀ declaration ∈ locals, (block declaration).Declares := fun declaration member =>
    declares_definition (sound declaration member) (areDefinitions declaration member)
  have windows : List.Forall₂ (Holds level)
      (splitBlocks ⟨before, ((joined blankLines (locals.map block)).shift level).tokens position⟩) (locals.map block) := by
    cases locals with
    | nil => exact absurd rfl some_
    | cons first rest =>
      rw [List.forall_mem_cons] at declares
      have others : ∀ other ∈ (rest.map block).map fun doc => (true, doc), other.2.Declares := by
        simpa only [List.forall_mem_map] using declares.2
      rw [List.map_cons, joined_blankLines]
      simpa [Function.comp_def] using holds_blocks declares.1 others column before
  have some_tokens : ((joined blankLines (locals.map block)).shift level).tokens position ≠ [] := by
    intro none_
    rw [none_, splitBlocks] at windows
    have lengths := windows.length_eq
    simp only [List.length_nil, List.length_map] at lengths
    exact some_ (List.length_eq_zero_iff.mp lengths.symm)
  rw [localDefinitions, if_neg (by simpa using some_tokens), Settled.blocks_eq]
  exact mapM_holds windows fun declaration member =>
    reads_local ready (sound declaration member) (areDefinitions declaration member) (within declaration member)

/-! ## Bodies -/

/-- **A body is read back**, when smaller bodies and expressions are. -/
theorem read_body (ready : Ready nested size) {inner : Body} (sound : inner.Everywhere Sound.checks)
    (fits : (bodyOf inner).size ≤ size + 1) :
    Reads (bodyStep nested) (bodyOf inner) fun level => Settled.body level inner := by
  obtain ⟨locals, result⟩ := inner
  rw [everywhere_body] at sound
  obtain ⟨areDefinitions, soundLocals, soundResult⟩ := sound
  intro level before position indented
  cases locals with
  | nil =>
    exact bodyStep_expression (read_expression ready soundResult fits level before position indented)
  | cons first rest =>
    have doc : bodyOf ⟨first :: rest, result⟩ = (above (keyword .letWord) (joined blankLines (blocks (first :: rest)))).under
        false 0 (above (keyword .inWord) (expression result)) := rfl
    rw [doc] at fits ⊢
    simp only [above, under, keyword, single, Doc.size, size_append, size_shift] at fits
    obtain ⟨letToken, inToken, localsPlace, resultPlace, isLet, isIn, column, right, tokens⟩ :=
      tokens_letIn (joined blankLines (blocks (first :: rest))) (expression result) level position
    have phrase : Phrase false (joined blankLines (blocks (first :: rest))) := by
      rw [blocks_eq]
      refine phrase_joined phrase_blankLines (by simp) (List.forall_mem_map.mpr fun declaration member => ?_)
      have defines := areDefinitions declaration member
      refine (fits_block (soundLocals declaration member)).2 fun text => ⟨?_, ?_⟩
      · rintro rfl
        simp [Grammar.isDefinition] at defines
      · rintro rfl
        simp [Grammar.isDefinition] at defines
    have balanced := (phrase.shift (level + 1)).balanced localsPlace
    rw [tokens, bodyStep]
    simp only [isLet, beq_self_eq_true, if_true, balanced.splitKeyword_word .inWord isIn]
    rw [read_locals ready (List.cons_ne_nil first rest) soundLocals areDefinitions (by omega) column]
    simp only [bind, Except.bind]
    rw [show nested.expression ⟨inToken.line, _⟩ = _ from
      ready.expression soundResult (by omega) (level + 1) inToken.line resultPlace right]
    rfl

/-! ## The readers of the grammar -/

/-- Readers that go one step deeper read what is one larger. -/
theorem Ready.step (ready : Ready nested size) : Ready ⟨expressionStep nested, bodyStep nested⟩ (size + 1) where
  expression := read_expression ready
  body := read_body ready

/-- **Readers that go deep enough read what is written.** -/
theorem ready_at (depth : Nat) : Ready ⟨expressionAt depth, bodyAt depth⟩ depth := by
  induction depth with
  | zero =>
    refine ⟨fun sound fits => ?_, fun sound fits => ?_⟩
    · exact absurd fits (Nat.not_le.mpr (size_pos (fits_expression sound).2.solid.1))
    · exact absurd fits (Nat.not_le.mpr (size_pos (fits_body sound).2.solid.1))
  | succ depth step => exact Ready.step step

/-- **An expression is read back.** -/
theorem reads_expression {item : Expression} (sound : item.Everywhere Sound.checks) :
    Reads Grammar.expression (expression item) fun level => Settled.expression level item := by
  intro level before position indented
  have firm := ((fits_expression sound).2.shift level).firm
  refine (ready_at _).expression sound ?_ level before position indented
  rw [← size_shift level]
  exact size_le_weight firm before position

/-- **A body is read back.** -/
theorem reads_body {inner : Body} (sound : inner.Everywhere Sound.checks) :
    Reads Grammar.body (bodyOf inner) fun level => Settled.body level inner := by
  intro level before position indented
  have firm := ((fits_body sound).2.shift level).firm
  refine (ready_at _).body sound ?_ level before position indented
  rw [← size_shift level]
  exact size_le_weight firm before position

end Written

end DerwLang
