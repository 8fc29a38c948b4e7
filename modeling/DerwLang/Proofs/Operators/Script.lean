/-
**Operators in ECMAScript text.**

ECMAScript has levels of its own, and all its operators group on the left. An expression of names, numbers, operators and
conditionals is lowered to a term of the same shape (`lower_plain`), and its text is read back as that expression. Main facts:

* `reads_text`: the text of a term is a row that is read as the expression;
* `lowered_reads`: so it is read as that expression, and as no other.
-/

import DerwLang.Ecma.Lowering
import DerwLang.Proofs.Operators.Text

namespace DerwLang.Ecma

open Operators

/-! ## The language -/

/-- The operators of ECMAScript that the language has as well; the others have no sign there. -/
def fixity : Fixity where
  level
    | .or => 1
    | .and => 2
    | .equal | .notEqual => 3
    | .less | .lessEqual | .greater | .greaterEqual => 4
    | .add | .subtract => 5
    | .multiply | .divide => 6
    | .prepend | .pipeInto | .pipeFrom => 0
  side _ := .left
  mixed := false

/-- The signs of ECMAScript and the two starts of comments, longer ones first. -/
def punctuators : List String :=
  [">>>=",
    "...", "===", "!==", "**=", "<<=", ">>=", ">>>", "&&=", "||=", "??=",
    "=>", "==", "!=", "<=", ">=", "&&", "||", "??", "?.", "++", "--", "+=", "-=", "*=", "/=", "%=", "&=", "|=", "^=",
    "<<", ">>", "**", "//", "/*",
    "\x7b", "\x7d", "(", ")", "[", "]", ".", ";", ",", "<", ">", "+", "-", "*", "/", "%", "&", "|", "^", "!", "~", "?",
    ":", "="]

/-- What a sign means between expressions; a minus that no operand stands before belongs to a number. -/
def markOf? (complete : Bool) (spelling : String) : Option Mark :=
  match spelling with
  | "(" => some .opening
  | ")" => some .closing
  | "?" => some .question
  | ":" => some .colon
  | "||" => some (.operator .or)
  | "&&" => some (.operator .and)
  | "===" => some (.operator .equal)
  | "!==" => some (.operator .notEqual)
  | "<" => some (.operator .less)
  | "<=" => some (.operator .lessEqual)
  | ">" => some (.operator .greater)
  | ">=" => some (.operator .greaterEqual)
  | "+" => some (.operator .add)
  | "-" => some (if complete then .operator .subtract else .negation)
  | "*" => some (.operator .multiply)
  | "/" => some (.operator .divide)
  | _ => none

/-- The signs of ECMAScript: the longest one is taken. -/
def signs : Signs := fun complete c rest =>
  match punctuators.find? fun sign => sign.toList.isPrefixOf (c :: rest) with
  | none => none
  | some sign => (markOf? complete sign).map fun mark => (mark, sign.length - 1)

theorem brackets : signs.Brackets where
  opening _ := Signs.marksAfter?_single (by decide) rfl
  closing _ := Signs.marksAfter?_single (by decide) rfl

/-- The operator has a sign of its own in ECMAScript. -/
def IsScript (operator : BinaryOperator) : Prop :=
  operator ≠ .prepend ∧ operator ≠ .pipeInto ∧ operator ≠ .pipeFrom

instance : DecidablePred IsScript := fun operator =>
  inferInstanceAs (Decidable (operator ≠ .prepend ∧ operator ≠ .pipeInto ∧ operator ≠ .pipeFrom))

theorem separates {operator : BinaryOperator} (isScript : IsScript operator) :
    signs.Separates (symbol operator) (.operator operator) := by
  cases operator
  case prepend | pipeInto | pipeFrom => exact absurd isScript (by decide)
  all_goals exact Signs.separates_of rfl (by decide) rfl fun _ => rfl

theorem separates_question : signs.Separates "?" .question :=
  Signs.separates_of rfl (by decide) rfl fun _ => rfl

theorem separates_colon : signs.Separates ":" .colon :=
  Signs.separates_of rfl (by decide) rfl fun _ => rfl

/-- A minus directly before a digit belongs to a number, if no operand stands before it. -/
theorem markAt?_negation {c : Char} (digit : c.isDigit = true) (rest : List Char) :
    signs.markAt? false '-' (c :: rest) = some (.negation, 0) := by
  have noMinus : ('-' == c) = false := by
    rw [beq_eq_false_iff_ne]
    rintro rfl
    exact absurd digit (by decide)
  have noEquals : ('=' == c) = false := by
    rw [beq_eq_false_iff_ne]
    rintro rfl
    exact absurd digit (by decide)
  have found : (punctuators.find? fun sign => sign.toList.isPrefixOf ('-' :: c :: rest)) = some "-" := by
    simp [punctuators, List.find?, List.isPrefixOf, noMinus, noEquals]
  have visible : ('-'.isDigit) = false ∧ Lexeme.startsName '-' = false := by decide
  simp only [Signs.markAt?, signs, found, visible, Bool.false_eq_true, if_false]
  rfl

/-- A negative number is a minus and a number. -/
theorem writes_negative {text : String} (negative : Sound.Negative text) :
    ∃ number, text = "-" ++ number ∧ number.toList.head?.any Char.isDigit = true ∧
      signs.Writes text [.negation, .operand (.value number)] := by
  obtain ⟨c, rest, same, digit, isWord⟩ := negative
  have chars : (String.ofList (c :: rest)).toList = c :: rest := String.toList_ofList
  have isOperand : Signs.IsOperand (String.ofList (c :: rest)) := by
    refine .inr ⟨by rwa [chars], ?_⟩
    rw [chars]
    rintro list
    obtain rfl := Option.some.inj list
    exact absurd digit (by decide)
  refine ⟨String.ofList (c :: rest), ?_, by simpa [chars] using digit, fun after ends => ?_⟩
  · rw [← String.toList_inj, same, String.toList_append, chars]
    rfl
  · have incomplete : Mark.completes .negation = false := rfl
    have number : signs.marksAfter? 0 false ((String.ofList (c :: rest)).toList ++ after) = _ :=
      Signs.marksAfter?_word isOperand ends.endsWord false
    rw [chars] at number
    rw [same, List.cons_append, List.cons_append, Signs.marksAfter?_single (by decide) (markAt?_negation digit (rest ++ after)), incomplete,
      ← List.cons_append, number]
    cases signs.marksAfter? 0 true after <;> rfl

/-! ## Terms -/

/-- An expression of names, numbers and booleans, the operators of ECMAScript, and conditionals without local definitions. -/
inductive Calculation : Expression → Prop
  | operand {text : String} (isOperand : Signs.IsOperand text) : Calculation (.value text)
  | negative {text : String} (negative : Sound.Negative text) : Calculation (.value text)
  | binary {operator : BinaryOperator} {left right : Expression} (isScript : IsScript operator) (one : Calculation left)
      (two : Calculation right) : Calculation (.binary operator left right)
  | conditional {test yes no : Expression} (one : Calculation test) (two : Calculation yes) (three : Calculation no) :
      Calculation (.conditional test ⟨[], yes⟩ ⟨[], no⟩)

/-- The term of a calculation. -/
def termOf : Expression → Term
  | .value text => .verbatim text
  | .binary operator left right => .operation operator (termOf left) (termOf right)
  | .conditional test ⟨_, yes⟩ ⟨_, no⟩ => .conditional (termOf test) (termOf yes) (termOf no)
  | _ => .verbatim ""

/-- **A calculation is lowered to a term of its shape.** -/
theorem lower_calculation {item : Expression} (calculation : Calculation item) (dialect : Dialect) :
    lower dialect false item = pure (.term (termOf item)) := by
  induction calculation with
  | operand | negative => rw [lower, termOf]
  | @binary operator left right isScript _ _ one two =>
    obtain ⟨notPrepend, notInto, notFrom⟩ := isScript
    have other : (operator == .pipeFrom) = false := beq_eq_false_iff_ne.mpr notFrom
    have term : ∀ left right, operationTerm operator left right = .operation operator left right := by
      intro left right
      rw [operationTerm]
      exact notPrepend
    rw [lower]
    · simp [one, two, other, term, termOf, Lowered.toTerm]
    · exact notInto
  | conditional _ _ _ one two three =>
    rw [lower]
    simp [one, two, three, termOf, Lowered.toTerm]

/-! ## Text -/

/-- What stands outermost in the text of a calculation. -/
def outermostOf : Expression → Outermost
  | .binary operator _ _ => .operation operator
  | .conditional _ _ _ => .conditional
  | _ => .single

/-- The text is a row that is read as the calculation; outermost stands what is given. -/
def Shows (outermost : Outermost) (text : String) (item : Expression) : Prop :=
  ∃ marks, signs.Writes text marks ∧ fixity.Reads outermost marks item

theorem Shows.parenthesised {outermost : Outermost} {text : String} {item : Expression}
    (shows : Shows outermost text item) : Shows .single (Text.parenthesised text) item := by
  obtain ⟨marks, writes, reads⟩ := shows
  exact ⟨_, writes.parenthesised brackets, reads.bracketed⟩

/-- Blanks within the brackets are passed. -/
theorem Shows.spaced {outermost : Outermost} {text : String} {item : Expression} (shows : Shows outermost text item) :
    Shows .single ("( " ++ text ++ " )") item := by
  obtain ⟨marks, writes, reads⟩ := shows
  refine ⟨_, fun rest _ => ?_, reads.bracketed⟩
  have whole : ("( " ++ text ++ " )").toList ++ rest = '(' :: ' ' :: (text.toList ++ ' ' :: ')' :: rest) := by simp
  rw [whole, brackets.opening, Signs.marksAfter?_blank (by decide), writes _ (Signs.ends_blank _),
    Signs.marksAfter?_blank (by decide), brackets.closing]
  cases signs.marksAfter? 0 true rest <;> simp

/-- An operand stands in brackets, or binds as tightly as its operator asks on its side. -/
theorem shows_operand {item : Expression} {text : String} (shows : Shows (outermostOf item) text item) (parent : Nat)
    (onRight : Bool) : ∃ outermost, Shows outermost (operandText parent onRight (termOf item) text) item ∧
      (outermost = .single ∨ outermost = outermostOf item ∧ parent ≤ (termOf item).precedence ∧
        (onRight = true → (termOf item).precedence ≠ parent)) := by
  rw [operandText]
  split
  · exact ⟨_, shows.parenthesised, .inl rfl⟩
  · rename_i bare
    refine ⟨_, shows, .inr ⟨rfl, ?_⟩⟩
    simpa using bare

theorem takesLeft_of_le {parent child : BinaryOperator} (isScript : IsScript parent) (isScript' : IsScript child)
    (le : precedence parent ≤ precedence child) : fixity.takesLeft parent child = true := by
  revert isScript isScript' le
  cases parent <;> cases child <;> decide

theorem takesRight_of_lt {parent child : BinaryOperator} (isScript : IsScript parent) (isScript' : IsScript child)
    (less : precedence parent < precedence child) : fixity.takesRight parent child = true := by
  revert isScript isScript' less
  cases parent <;> cases child <;> decide

theorem precedence_pos {operator : BinaryOperator} : 0 < precedence operator := by
  cases operator <;> decide

/-- What stands outermost in an operand without brackets: no conditional, and no operation that binds looser. -/
theorem stands_operand {item : Expression} (calculation : Calculation item) {parent : BinaryOperator}
    (isScript : IsScript parent) (le : precedence parent ≤ (termOf item).precedence) :
    fixity.StandsLeft parent (outermostOf item) ∧
      ((termOf item).precedence ≠ precedence parent → fixity.StandsRight parent (outermostOf item)) := by
  cases calculation with
  | operand | negative => exact ⟨trivial, fun _ => trivial⟩
  | binary isScript' =>
    exact ⟨takesLeft_of_le isScript isScript' le, fun other =>
      takesRight_of_lt isScript isScript' (Nat.lt_of_le_of_ne le (Ne.symm other))⟩
  | conditional => exact absurd (Nat.lt_of_lt_of_le precedence_pos le) (Nat.lt_irrefl 0)

/-- A branch stands in brackets or is any expression. -/
theorem shows_branch {item : Expression} {text : String} (shows : Shows (outermostOf item) text item) :
    ∃ outermost, Shows outermost (branchText (termOf item) text) item := by
  unfold branchText
  split
  · split
    · exact ⟨_, shows⟩
    · exact ⟨_, shows.spaced⟩
  · exact ⟨_, shows⟩

theorem conditional_signs (test yes no : String) :
    test ++ " ? " ++ yes ++ " : " ++ no = test ++ " " ++ "?" ++ " " ++ yes ++ " " ++ ":" ++ " " ++ no := by
  simp [← String.toList_inj]

/-- **The text of a calculation is a row that is read as the calculation.** -/
theorem shows_text {item : Expression} (calculation : Calculation item) (dialect : Dialect) :
    Shows (outermostOf item) ((termOf item).text dialect) item := by
  induction calculation with
  | operand isOperand =>
    rw [termOf]
    unfold Term.text
    exact ⟨_, .word isOperand, .operand _⟩
  | negative negative =>
    obtain ⟨number, rfl, isNumber, writes⟩ := writes_negative negative
    rw [termOf]
    unfold Term.text
    exact ⟨_, writes, .negated isNumber⟩
  | @binary operator left right isScript leftOk rightOk one two =>
    obtain ⟨first, ⟨before, leftWrites, leftReads⟩, leftSide⟩ := shows_operand one (precedence operator) false
    obtain ⟨second, ⟨after, rightWrites, rightReads⟩, rightSide⟩ := shows_operand two (precedence operator) true
    have standsLeft : fixity.StandsLeft operator first := by
      rcases leftSide with rfl | ⟨rfl, le, -⟩
      · trivial
      · exact (stands_operand leftOk isScript le).1
    have standsRight : fixity.StandsRight operator second := by
      rcases rightSide with rfl | ⟨rfl, le, other⟩
      · trivial
      · exact (stands_operand rightOk isScript le).2 (other rfl)
    rw [termOf]
    unfold Term.text
    exact ⟨_, leftWrites.operation rightWrites (separates isScript), leftReads.operation rightReads standsLeft standsRight⟩
  | @conditional test yes no testOk _ _ one two three =>
    obtain ⟨first, ⟨before, testWrites, testReads⟩, testSide⟩ := shows_operand one 1 false
    obtain ⟨second, between, yesWrites, yesReads⟩ := shows_branch two
    obtain ⟨third, after, noWrites, noReads⟩ := shows_branch three
    have plain : first ≠ .conditional := by
      rcases testSide with rfl | ⟨rfl, le, -⟩
      · simp
      · cases testOk with
        | conditional => exact absurd le (Nat.not_succ_le_zero 0)
        | _ => simp [outermostOf]
    have writes := (testWrites.operation yesWrites separates_question).operation noWrites separates_colon
    refine ⟨_, ?_, testReads.conditional yesReads noReads plain⟩
    rw [termOf]
    unfold Term.text
    rw [conditional_signs]
    simpa only [List.append_assoc, List.cons_append] using writes

/-- **ECMAScript text keeps the grouping of operators.** The text of an expression of names, numbers, operators and
conditionals is read as that expression and as no other, in both dialects. -/
theorem lowered_reads {item : Expression} (calculation : Calculation item) (dialect : Dialect) (names : TempNames)
    (tree : Expression) :
    signs.Reads fixity (((lower dialect false item).run names).1.toTerm.text dialect) tree ↔ tree = item := by
  obtain ⟨marks, writes, reads⟩ := shows_text calculation dialect
  rw [lower_calculation calculation]
  refine writes.reads_iff.trans ⟨fun ⟨_, other⟩ => other.unique reads, ?_⟩
  rintro rfl
  exact ⟨_, reads⟩

/-- A conditional whose condition starts with a conditional, and a comparison of comparisons with a negative number. -/
def chosen : Expression :=
  .conditional (.value "a")
    ⟨[], .conditional (.conditional (.value "functional") ⟨[], .value "b"⟩ ⟨[], .value "c"⟩) ⟨[], .value "1"⟩ ⟨[], .value "2"⟩⟩
    ⟨[], .binary .less (.value "x") (.binary .equal (.value "y") (.binary .subtract (.value "z") (.value "-1")))⟩

/-- The inner conditional stands without brackets, the comparison on the right of a comparison in them. -/
theorem lowered_reads_chosen :
    Calculation chosen ∧
      ((lower .javaScript false chosen).run {}).1.toTerm.text .javaScript =
        "a ? (functional ? b : c) ? 1 : 2 : x < (y === z - -1)" ∧
      ∀ tree, signs.Reads fixity (((lower .javaScript false chosen).run {}).1.toTerm.text .javaScript) tree ↔
        tree = chosen := by
  have names : ∀ name ∈ ["a", "functional", "b", "c", "x", "y", "z"], Sound.Name name := by decide
  simp only [List.forall_mem_cons] at names
  obtain ⟨a, functional, b, c, x, y, z, -⟩ := names
  have one : Sound.Literal "1" := ⟨by decide, by decide⟩
  have two : Sound.Literal "2" := ⟨by decide, by decide⟩
  have minusOne : Sound.Negative "-1" := ⟨'1', [], rfl, rfl, by decide⟩
  have inner : Calculation
      (.conditional (.conditional (.value "functional") ⟨[], .value "b"⟩ ⟨[], .value "c"⟩) ⟨[], .value "1"⟩ ⟨[], .value "2"⟩) :=
    .conditional (.conditional (.operand (.inl functional)) (.operand (.inl b)) (.operand (.inl c))) (.operand (.inr one))
      (.operand (.inr two))
  have compared : Calculation (.binary .less (.value "x") (.binary .equal (.value "y") (.binary .subtract (.value "z") (.value "-1")))) :=
    .binary (by decide) (.operand (.inl x)) (.binary (by decide) (.operand (.inl y))
      (.binary (by decide) (.operand (.inl z)) (.negative minusOne)))
  have calculation : Calculation chosen := .conditional (.operand (.inl a)) inner compared
  refine ⟨calculation, ?_, lowered_reads calculation .javaScript {}⟩
  decide +kernel

end DerwLang.Ecma
