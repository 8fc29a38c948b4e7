/-
**Operators in Elm text.**

Elm has its own levels of operators, and operators of one level that group on different sides, or on none, do not stand beside
each other without brackets. An expression over names is printed as a row of operands, operators and brackets (`row`), and Elm
reads that row, or refuses it. Main facts:

* `writes_row`: the printed text has the row;
* `reads_of_clear`: where no operator stands bare beside one that Elm does not mix it with, the row is read, up to chains of
  one boolean operator, which group on the other side;
* `sides_of_neighbours`: in a row that is read, operators of one level with nothing looser between group on one side;
* `expression_reads`: so a printed text is read just in case every operator is clear of its operands.
-/

import DerwLang.Elm.Layout
import DerwLang.Proofs.Operators.Text

namespace DerwLang.Elm

open Operators

/-! ## The language -/

/-- The operators of Elm. -/
def fixity : Fixity where
  level
    | .pipeFrom | .pipeInto => 0
    | .or => 2
    | .and => 3
    | .equal | .notEqual | .less | .lessEqual | .greater | .greaterEqual => 4
    | .prepend => 5
    | .add | .subtract => 6
    | .multiply | .divide => 7
  side
    | .pipeFrom | .or | .and | .prepend => .right
    | .pipeInto | .add | .subtract | .multiply | .divide => .left
    | .equal | .notEqual | .less | .lessEqual | .greater | .greaterEqual => .none
  mixed := false

/-- The operator with the given spelling. -/
def operatorOf? (spelling : String) : Option BinaryOperator :=
  match spelling with
  | "<|" => some .pipeFrom
  | "|>" => some .pipeInto
  | "||" => some .or
  | "&&" => some .and
  | "==" => some .equal
  | "/=" => some .notEqual
  | "<" => some .less
  | "<=" => some .lessEqual
  | ">" => some .greater
  | ">=" => some .greaterEqual
  | "::" => some .prepend
  | "+" => some .add
  | "-" => some .subtract
  | "*" => some .multiply
  | "/" => some .divide
  | _ => none

/-- A character that goes on with an operator. -/
def isOperatorChar (c : Char) : Bool :=
  "+-/*=.<>:&|^?%!".toList.contains c

/-- The signs of Elm: brackets, and operators, which take all characters that go on with them. -/
def signs : Signs := fun _ c rest =>
  if c = '(' then some (.opening, 0)
  else if c = ')' then some (.closing, 0)
  else
    let further := rest.takeWhile isOperatorChar
    (operatorOf? (String.ofList (c :: further))).map fun operator => (.operator operator, further.length)

/-! ## Rows -/

/-- The marks in brackets, if there are brackets. -/
def enclosed (brackets : Bool) (marks : List Mark) : List Mark :=
  if brackets then .opening :: (marks ++ [.closing]) else marks

theorem enclosed_false (marks : List Mark) : enclosed false marks = marks := rfl

/-- The row that an expression is printed as. -/
def row : Expression → List Mark
  | .binary operator left right =>
    enclosed (operandNeedsBrackets operator false left) (row left) ++
      .operator operator :: enclosed (operandNeedsBrackets operator true right) (row right)
  | value => [.operand value]

/-- An expression of names and operators. -/
inductive OverNames : Expression → Prop
  | name {text : String} (isName : Sound.Name text) : OverNames (.value text)
  | binary (operator : BinaryOperator) {left right : Expression} (leftNames : OverNames left) (rightNames : OverNames right) :
      OverNames (.binary operator left right)

theorem brackets : signs.Brackets where
  opening _ := Signs.marksAfter?_single (by decide) rfl
  closing _ := Signs.marksAfter?_single (by decide) rfl

theorem separates (operator : BinaryOperator) : signs.Separates (symbol operator) (.operator operator) := by
  cases operator
  all_goals exact Signs.separates_of rfl (by decide) rfl fun _ => rfl

theorem writes_enclosed {text : String} {marks : List Mark} (writes : signs.Writes text marks) (parent : BinaryOperator)
    (onRight : Bool) (operand : Expression) :
    signs.Writes (operandText parent onRight operand text)
      (enclosed (operandNeedsBrackets parent onRight operand) marks) := by
  rw [operandText, enclosed]
  split
  · exact writes.parenthesised brackets
  · exact writes

/-- **The printed text has the row.** -/
theorem writes_row {item : Expression} (overNames : OverNames item) (bareTags : BareTags) :
    signs.Writes (expression bareTags item) (row item) := by
  induction overNames with
  | @name text isName =>
    have notTrue : text ≠ "true" := fun same => absurd (same ▸ isName) (by decide)
    have notFalse : text ≠ "false" := fun same => absurd (same ▸ isName) (by decide)
    rw [expression, valueText]
    · exact .word (.inl isName)
    · exact notTrue
    · exact notFalse
  | binary operator _ _ one two =>
    rw [expression]
    exact (writes_enclosed one operator false _).operation (writes_enclosed two operator true _) (separates operator)

/-! ## Rows that are read -/

/-- Elm reads the left operand apart from the operator: no comparison stands left of a comparison, and no `<|` of a `|>`. -/
def ClearLeft (parent : BinaryOperator) : Expression → Prop
  | .binary child _ _ =>
    ¬ (parent.isComparison = true ∧ child.isComparison = true) ∧ ¬ (parent = .pipeInto ∧ child = .pipeFrom)
  | _ => True

/-- Elm reads the right operand apart from the operator: no `|>` stands right of a `<|`. -/
def ClearRight (parent : BinaryOperator) : Expression → Prop
  | .binary child _ _ => ¬ (parent = .pipeFrom ∧ child = .pipeInto)
  | _ => True

/-- Elm reads every operator apart from its operands. -/
inductive Clear : Expression → Prop
  | value (text : String) : Clear (.value text)
  | binary {operator : BinaryOperator} {left right : Expression} (isClearLeft : Clear left) (isClearRight : Clear right)
      (clearLeft : ClearLeft operator left) (clearRight : ClearRight operator right) :
      Clear (.binary operator left right)

/-- The operators that group on the right in Elm and on the left in the language, and on either side mean the same. -/
def IsBoolean (operator : BinaryOperator) : Prop :=
  operator = .and ∨ operator = .or

/-- Chains of one boolean operator are grouped further to the right. -/
inductive Regroups : Expression → Expression → Prop
  | refl (value : Expression) : Regroups value value
  | trans {first second third : Expression} (one : Regroups first second) (two : Regroups second third) :
      Regroups first third
  | turn {operator : BinaryOperator} (isBoolean : IsBoolean operator) (first second third : Expression) :
      Regroups (.binary operator (.binary operator first second) third)
        (.binary operator first (.binary operator second third))
  | binary (operator : BinaryOperator) {left left' right right' : Expression} (one : Regroups left left')
      (two : Regroups right right') : Regroups (.binary operator left right) (.binary operator left' right')

/-- What stands outermost in the row of an expression. -/
def outermostOf : Expression → Outermost
  | .binary operator _ _ => .operation operator
  | _ => .single

/-- What stands outermost in a row, or in brackets around it. -/
def outermostIn (brackets : Bool) (outermost : Outermost) : Outermost :=
  if brackets then .single else outermost

theorem reads_enclosed {outermost : Outermost} {marks : List Mark} {tree : Expression}
    (reads : fixity.Reads outermost marks tree) (brackets : Bool) :
    fixity.Reads (outermostIn brackets outermost) (enclosed brackets marks) tree := by
  cases brackets
  · exact reads
  · exact reads.bracketed

instance : DecidablePred IsBoolean := fun operator =>
  inferInstanceAs (Decidable (operator = .and ∨ operator = .or))

/-- An operation in the operand of an operator stands in brackets on the given side. -/
def needsBrackets (parent : BinaryOperator) (onRight : Bool) (child : BinaryOperator) : Bool :=
  precedence child < precedence parent ||
    (precedence child == precedence parent && onRight != (parent.associativity == .right))

theorem operandNeedsBrackets_binary (parent : BinaryOperator) (onRight : Bool) (child : BinaryOperator)
    (left right : Expression) :
    operandNeedsBrackets parent onRight (.binary child left right) = needsBrackets parent onRight child := rfl

/-- A bare operation is read left of a clear operator, unless both are the same boolean operator. -/
theorem takesLeft_of_bare {parent child : BinaryOperator} (bare : needsBrackets parent false child = false)
    (noComparisons : ¬ (parent.isComparison = true ∧ child.isComparison = true))
    (noPipes : ¬ (parent = .pipeInto ∧ child = .pipeFrom)) :
    fixity.takesLeft parent child = true ∨ IsBoolean parent ∧ child = parent := by
  revert bare noComparisons noPipes
  cases parent <;> cases child <;> decide

/-- A bare operation is read right of a clear operator. -/
theorem takesRight_of_bare {parent child : BinaryOperator} (bare : needsBrackets parent true child = false)
    (noPipes : ¬ (parent = .pipeFrom ∧ child = .pipeInto)) : fixity.takesRight parent child = true := by
  revert bare noPipes
  cases parent <;> cases child <;> decide

/-- What is read right of a boolean operator is read left of it as well, unless it is a chain of that operator. -/
theorem takesLeft_of_takesRight {parent child : BinaryOperator} (isBoolean : IsBoolean parent)
    (takes : fixity.takesRight parent child = true) (other : child ≠ parent) : fixity.takesLeft parent child = true := by
  revert isBoolean takes other
  cases parent <;> cases child <;> decide

/-- An operand stands left of a clear operator, or is a bare chain of the same boolean operator. -/
theorem standsLeft_operand {operator : BinaryOperator} {left : Expression} (clear : ClearLeft operator left) :
    fixity.StandsLeft operator (outermostIn (operandNeedsBrackets operator false left) (outermostOf left)) ∨
      IsBoolean operator ∧ operandNeedsBrackets operator false left = false ∧ outermostOf left = .operation operator := by
  rw [outermostIn]
  split
  · exact .inl trivial
  · rename_i bare
    cases left with
    | binary child =>
      rw [operandNeedsBrackets_binary, Bool.not_eq_true] at bare
      rcases takesLeft_of_bare bare clear.1 clear.2 with takes | ⟨isBoolean, rfl⟩
      · exact .inl takes
      · exact .inr ⟨isBoolean, bare, rfl⟩
    | _ => exact .inl trivial

/-- An operand stands right of a clear operator. -/
theorem standsRight_operand {operator : BinaryOperator} {right : Expression} (clear : ClearRight operator right) :
    fixity.StandsRight operator (outermostIn (operandNeedsBrackets operator true right) (outermostOf right)) := by
  rw [outermostIn]
  split
  · trivial
  · rename_i bare
    cases right with
    | binary child =>
      rw [operandNeedsBrackets_binary, Bool.not_eq_true] at bare
      exact takesRight_of_bare bare clear
    | _ => trivial

/-- **A chain of one boolean operator goes on** with a further operand, which is grouped to the right. -/
theorem reads_turned {operator : BinaryOperator} (isBoolean : IsBoolean operator) {before after : List Mark}
    {left right : Expression} {second : Outermost} (leftRead : fixity.Reads (.operation operator) before left)
    (rightRead : fixity.Reads second after right) (standsRight : fixity.StandsRight operator second) :
    ∃ tree, fixity.Reads (.operation operator) (before ++ .operator operator :: after) tree ∧
      Regroups (.binary operator left right) tree := by
  generalize same : Outermost.operation operator = outermost at leftRead
  induction leftRead with
  | operand => cases same
  | negated => cases same
  | bracketed => cases same
  | conditional => cases same
  | @operation own first inner before between left middle leftRead middleRead standsLeft standsMiddle _ step =>
    obtain rfl := Outermost.operation.inj same
    have itself : fixity.takesRight operator operator = true := by rcases isBoolean with rfl | rfl <;> decide
    rw [List.append_assoc, List.cons_append]
    by_cases chain : inner = .operation operator
    · subst chain
      obtain ⟨tree, reads, regroups⟩ := step rfl
      exact ⟨_, leftRead.operation reads standsLeft itself, (Regroups.turn isBoolean _ _ _).trans (.binary _ (.refl _) regroups)⟩
    · have stands : fixity.StandsLeft operator inner := by
        cases inner with
        | single => trivial
        | operation child => exact takesLeft_of_takesRight isBoolean standsMiddle fun same => chain (same ▸ rfl)
        | conditional => exact standsMiddle.elim
      exact ⟨_, leftRead.operation (middleRead.operation rightRead stands standsRight) standsLeft itself,
        Regroups.turn isBoolean _ _ _⟩

/-- **The row of a clear expression is read**, up to chains of one boolean operator. -/
theorem reads_of_clear {item : Expression} (clear : Clear item) :
    ∃ tree, fixity.Reads (outermostOf item) (row item) tree ∧ Regroups item tree := by
  induction clear with
  | value text => exact ⟨_, .operand _, .refl _⟩
  | @binary operator left right _ _ clearLeft clearRight one two =>
    obtain ⟨leftTree, leftRead, leftRegroups⟩ := one
    obtain ⟨rightTree, rightRead, rightRegroups⟩ := two
    have rightRead := reads_enclosed rightRead (operandNeedsBrackets operator true right)
    have standsRight := standsRight_operand clearRight
    rw [row]
    rcases standsLeft_operand clearLeft with standsLeft | ⟨isBoolean, bare, chain⟩
    · exact ⟨_, (reads_enclosed leftRead _).operation rightRead standsLeft standsRight, .binary _ leftRegroups rightRegroups⟩
    · rw [chain] at leftRead
      rw [bare, enclosed_false]
      obtain ⟨tree, reads, regroups⟩ := reads_turned isBoolean leftRead rightRead standsRight
      exact ⟨tree, reads, .trans (.binary _ leftRegroups rightRegroups) regroups⟩

/-! ## Rows that are refused -/

theorem depthAfter_enclosed {marks : List Mark} (closed : ∀ depth, Mark.depthAfter depth marks = some depth)
    (brackets : Bool) (depth : Nat) : Mark.depthAfter depth (enclosed brackets marks) = some depth := by
  cases brackets
  · exact closed depth
  · simp [enclosed, Mark.depthAfter, Mark.depthAfter_append (closed (depth + 1))]

theorem outside_brackets {marks : List Mark} (closed : ∀ depth, Mark.depthAfter depth marks = some depth) :
    Mark.outside 0 (.opening :: (marks ++ [.closing])) = [] := by
  simp [Mark.outside, Mark.outside_append (closed 1), Mark.outside_succ (closed 0)]

/-- A row closes its brackets. -/
theorem depthAfter_row (item : Expression) (depth : Nat) : Mark.depthAfter depth (row item) = some depth := by
  fun_induction row item generalizing depth with
  | case1 operator left right one two =>
    rw [Mark.depthAfter_append (depthAfter_enclosed one _ _), Mark.depthAfter]
    exact depthAfter_enclosed two _ _
  | case2 => rfl

theorem not_question_row (item : Expression) : Mark.question ∉ row item := by
  fun_induction row item with
  | case1 operator left right one two => simp [enclosed]; split <;> split <;> simp_all
  | case2 => simp

/-- Outside the brackets of an operand no operator binds looser than the operator that it stands beside. -/
theorem level_le_operand {item : Expression} {parent own : BinaryOperator} {onRight : Bool}
    (member : .operator own ∈ Mark.outside 0 (enclosed (operandNeedsBrackets parent onRight item) (row item))) :
    fixity.level parent ≤ fixity.level own := by
  fun_induction row item generalizing parent onRight with
  | case1 child left right one two =>
    rw [operandNeedsBrackets_binary] at member
    cases brackets : needsBrackets parent onRight child with
    | true =>
      rw [brackets, enclosed, if_pos rfl, ← row, outside_brackets (depthAfter_row _)] at member
      cases member
    | false =>
      have le : fixity.level parent ≤ fixity.level child := by
        revert brackets
        cases onRight <;> cases parent <;> cases child <;> decide
      have closed := depthAfter_enclosed (depthAfter_row left) (operandNeedsBrackets child false left) 0
      rw [brackets, enclosed_false, Mark.outside_append closed, Mark.outside, if_pos rfl] at member
      rcases List.mem_append.mp member with inLeft | inRight
      · exact le.trans (one inLeft)
      · rcases List.mem_cons.mp inRight with same | inRight
        · rwa [Mark.operator.inj same]
        · exact le.trans (two inRight)
  | case2 => simp [enclosed] at member; split at member <;> simp [Mark.outside] at member

theorem clearLeft_of_sides {parent child : BinaryOperator}
    (sides : needsBrackets parent false child = false → fixity.level child = fixity.level parent →
      fixity.side child = fixity.side parent ∧ fixity.side child ≠ .none) :
    ¬ (parent.isComparison = true ∧ child.isComparison = true) ∧ ¬ (parent = .pipeInto ∧ child = .pipeFrom) := by
  revert sides
  cases parent <;> cases child <;> decide

theorem clearRight_of_sides {parent child : BinaryOperator}
    (sides : needsBrackets parent true child = false → fixity.level parent = fixity.level child →
      fixity.side parent = fixity.side child) :
    ¬ (parent = .pipeFrom ∧ child = .pipeInto) := by
  revert sides
  cases parent <;> cases child <;> decide

theorem infix_enclosed (brackets : Bool) (marks : List Mark) : marks <:+: enclosed brackets marks := by
  cases brackets
  · exact List.infix_refl _
  · exact ⟨[.opening], [.closing], rfl⟩

/-- **An expression whose row is part of a row that is read is clear.** -/
theorem clear_of_reads {item tree : Expression} {marks : List Mark} {outermost : Outermost} (overNames : OverNames item)
    (reads : fixity.Reads outermost marks tree) (noQuestion : .question ∉ marks) (part : row item <:+: marks) :
    Clear item := by
  induction overNames with
  | name => exact .value _
  | @binary operator left right _ _ one two =>
    have isClearLeft : Clear left :=
      one ((infix_enclosed _ _).trans ((List.prefix_append _ _).isInfix.trans part))
    have isClearRight : Clear right :=
      two ((infix_enclosed _ _).trans ((List.suffix_append_of_suffix (List.suffix_cons _ _)).isInfix.trans part))
    refine .binary isClearLeft isClearRight ?_ ?_
    · cases left with
      | binary child first second =>
        refine clearLeft_of_sides fun bare level => ?_
        have neighbours : .operator child :: (enclosed (operandNeedsBrackets child true second) (row second) ++
            [.operator operator]) <:+: row (.binary operator (.binary child first second) right) := by
          rw [row, operandNeedsBrackets_binary, bare, enclosed_false, row]
          exact ⟨enclosed (operandNeedsBrackets child false first) (row first),
            enclosed (operandNeedsBrackets operator true right) (row right), by simp⟩
        exact reads.sides_of_neighbours rfl noQuestion (neighbours.trans part) (depthAfter_enclosed (depthAfter_row _) _ 0) level
          fun own member => level_le_operand member
      | _ => trivial
    · cases right with
      | binary child first second =>
        refine clearRight_of_sides fun bare level => ?_
        have neighbours : .operator operator :: (enclosed (operandNeedsBrackets child false first) (row first) ++
            [.operator child]) <:+: row (.binary operator left (.binary child first second)) := by
          rw [row, operandNeedsBrackets_binary, bare, enclosed_false, row]
          exact ⟨enclosed (operandNeedsBrackets operator false left) (row left),
            enclosed (operandNeedsBrackets child true second) (row second), by simp⟩
        exact (reads.sides_of_neighbours rfl noQuestion (neighbours.trans part) (depthAfter_enclosed (depthAfter_row _) _ 0) level
          fun own member => level ▸ level_le_operand member).1
      | _ => trivial

/-! ## The printed text -/

/-- **A printed expression over names is an expression of Elm just in case every operator is clear of its operands**: no
comparison stands left of a comparison, no `<|` left of a `|>` and no `|>` right of a `<|`. It is then read as the same
expression, up to chains of `&&` and of `||`, which group to the right. -/
theorem expression_reads {item : Expression} (overNames : OverNames item) (bareTags : BareTags) :
    ((∃ tree, signs.Reads fixity (expression bareTags item) tree) ↔ Clear item) ∧
      ∀ tree, signs.Reads fixity (expression bareTags item) tree → Regroups item tree := by
  have writes := writes_row overNames bareTags
  have clear : ∀ tree, signs.Reads fixity (expression bareTags item) tree → Clear item := by
    intro tree read
    obtain ⟨outermost, reads⟩ := writes.reads_iff.mp read
    exact clear_of_reads overNames reads (not_question_row item) (List.infix_refl _)
  refine ⟨⟨fun ⟨tree, read⟩ => clear tree read, fun isClear => ?_⟩, fun tree read => ?_⟩
  · obtain ⟨tree, reads, -⟩ := reads_of_clear isClear
    exact ⟨tree, writes.reads_iff.mpr ⟨_, reads⟩⟩
  · obtain ⟨outermost, reads⟩ := writes.reads_iff.mp read
    obtain ⟨tree', reads', regroups⟩ := reads_of_clear (clear tree read)
    rwa [reads.unique reads']

/-- A chain of `&&` that groups on the left, right of a `<|`. -/
def checked : Expression :=
  .binary .pipeFrom (.value "check")
    (.binary .and (.binary .and (.value "a") (.value "b")) (.binary .less (.value "c") (.binary .add (.value "d") (.value "e"))))

/-- It is printed without brackets, and read with the chain grouped to the right. -/
theorem expression_reads_checked :
    OverNames checked ∧ expression [] checked = "check <| a && b && c < d + e" ∧
      (∃ tree, signs.Reads fixity (expression [] checked) tree) ∧
      ∀ tree, signs.Reads fixity (expression [] checked) tree → Regroups checked tree := by
  have names : ∀ name ∈ ["check", "a", "b", "c", "d", "e"], Sound.Name name := by decide
  simp only [List.forall_mem_cons] at names
  obtain ⟨check, a, b, c, d, e, -⟩ := names
  have overNames : OverNames checked :=
    .binary _ (.name check) (.binary _ (.binary _ (.name a) (.name b)) (.binary _ (.name c) (.binary _ (.name d) (.name e))))
  have compared : Clear (.binary .less (.value "c") (.binary .add (.value "d") (.value "e"))) :=
    .binary (.value _) (.binary (.value _) (.value _) trivial trivial) trivial (by simp [ClearRight])
  have clear : Clear checked :=
    .binary (.value _) (.binary (.binary (.value _) (.value _) trivial trivial) compared (by simp [ClearLeft]; decide)
      (by simp [ClearRight])) trivial (by simp [ClearRight])
  obtain ⟨readsIff, regroups⟩ := expression_reads overNames []
  exact ⟨overNames, by decide, readsIff.mpr clear, regroups⟩

/-- **A comparison of a comparison is no Elm.** It is printed without brackets, and comparisons group on no side. -/
theorem comparison_of_comparison :
    OverNames (.binary .equal (.binary .less (.value "a") (.value "b")) (.value "c")) ∧
      expression [] (.binary .equal (.binary .less (.value "a") (.value "b")) (.value "c")) = "a < b == c" ∧
      ∀ tree, ¬ signs.Reads fixity "a < b == c" tree := by
  have names : ∀ name ∈ ["a", "b", "c"], Sound.Name name := by decide
  simp only [List.forall_mem_cons] at names
  obtain ⟨a, b, c, -⟩ := names
  have overNames : OverNames (.binary .equal (.binary .less (.value "a") (.value "b")) (.value "c")) :=
    .binary _ (.binary _ (.name a) (.name b)) (.name c)
  have text : expression [] (.binary .equal (.binary .less (.value "a") (.value "b")) (.value "c")) = "a < b == c" := by
    decide
  refine ⟨overNames, text, fun tree read => ?_⟩
  rw [← text] at read
  obtain ⟨outermost, reads⟩ := (writes_row overNames []).reads_iff.mp read
  have clear := clear_of_reads overNames reads (not_question_row _) (List.infix_refl _)
  cases clear with
  | binary _ _ clearLeft _ => exact clearLeft.1 ⟨rfl, rfl⟩

end DerwLang.Elm
