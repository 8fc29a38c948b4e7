/-
**How rows of operators are grouped.**

What is written of an expression is a row of marks: operands, the operators between them, and brackets. A fixity says how
tightly each operator of a language binds and on which side it groups with its equals, and so which operations stand beside
an operator without brackets. `Fixity.Reads` says that a row is read as an expression. Main facts:

* `Reads.outside_operation`: outside brackets no operator of a row binds looser than the outermost one;
* `Reads.unique`: a row is read as one expression at most.
-/

import DerwLang.Syntax.Expression
import Mathlib.Data.List.Basic

namespace DerwLang.Operators

/-! ## Rows -/

/-- What an expression with operators is written with. -/
inductive Mark
  | operand (value : Expression)
  /-- the minus of a number -/
  | negation
  | operator (operator : BinaryOperator)
  | opening
  | closing
  /-- after the condition of a conditional -/
  | question
  /-- between the two branches of a conditional -/
  | colon

/-- How tightly operators bind, and on which side they group with their equals. -/
structure Fixity where
  level : BinaryOperator → Nat
  side : BinaryOperator → Associativity
  /-- Operators of one level that group on different sides may stand beside each other; the earlier one decides. -/
  mixed : Bool

/-- What stands outermost in a row: a single operand, which may be anything in brackets, an operation or a conditional. -/
inductive Outermost
  | single
  | operation (operator : BinaryOperator)
  | conditional
deriving DecidableEq

namespace Fixity

variable (fixity : Fixity)

/-- An operation stands left of an operator without brackets if it binds tighter, or as tightly and groups on the left. -/
def takesLeft (parent child : BinaryOperator) : Bool :=
  fixity.level parent < fixity.level child ||
    (fixity.level parent == fixity.level child && fixity.side child == .left &&
      (fixity.mixed || fixity.side parent == .left))

/-- An operation stands right of an operator without brackets if it binds tighter, or as tightly and the operator groups on
the right. -/
def takesRight (parent child : BinaryOperator) : Bool :=
  fixity.level parent < fixity.level child ||
    (fixity.level parent == fixity.level child && fixity.side parent == .right &&
      (fixity.mixed || fixity.side child == .right))

/-- What stands outermost in a row that is the left side of an operator. -/
def StandsLeft (operator : BinaryOperator) : Outermost → Prop
  | .single => True
  | .operation child => fixity.takesLeft operator child = true
  | .conditional => False

/-- What stands outermost in a row that is the right side of an operator. -/
def StandsRight (operator : BinaryOperator) : Outermost → Prop
  | .single => True
  | .operation child => fixity.takesRight operator child = true
  | .conditional => False

/-- A row of marks is read as an expression. A conditional binds looser than all operators and groups on the right. -/
inductive Reads : Outermost → List Mark → Expression → Prop
  | operand (value : Expression) : Reads .single [.operand value] value
  | negated {number : String} (isNumber : number.toList.head?.any Char.isDigit = true) :
      Reads .single [.negation, .operand (.value number)] (.value ("-" ++ number))
  | bracketed {outermost : Outermost} {marks : List Mark} {value : Expression} (inside : Reads outermost marks value) :
      Reads .single (.opening :: (marks ++ [.closing])) value
  | operation {operator : BinaryOperator} {first second : Outermost} {before after : List Mark} {left right : Expression}
      (leftRead : Reads first before left) (rightRead : Reads second after right)
      (standsLeft : fixity.StandsLeft operator first) (standsRight : fixity.StandsRight operator second) :
      Reads (.operation operator) (before ++ .operator operator :: after) (.binary operator left right)
  | conditional {first second third : Outermost} {before between after : List Mark} {test yes no : Expression}
      (testRead : Reads first before test) (yesRead : Reads second between yes) (noRead : Reads third after no)
      (plain : first ≠ .conditional) :
      Reads .conditional (before ++ .question :: (between ++ .colon :: after)) (.conditional test ⟨[], yes⟩ ⟨[], no⟩)

end Fixity

/-! ## Brackets -/

namespace Mark

/-- The number of open brackets after the marks; a conditional is open between its two signs. -/
def depthAfter : Nat → List Mark → Option Nat
  | depth, [] => some depth
  | depth, .opening :: rest | depth, .question :: rest => depthAfter (depth + 1) rest
  | depth, .closing :: rest | depth, .colon :: rest => if depth = 0 then none else depthAfter (depth - 1) rest
  | depth, .operand _ :: rest | depth, .negation :: rest | depth, .operator _ :: rest => depthAfter depth rest

/-- The operators and conditionals that stand outside brackets. -/
def outside : Nat → List Mark → List Mark
  | _, [] => []
  | depth, .opening :: rest => outside (depth + 1) rest
  | depth, .question :: rest => if depth = 0 then .question :: outside 1 rest else outside (depth + 1) rest
  | depth, .closing :: rest | depth, .colon :: rest => outside (depth - 1) rest
  | depth, .operator own :: rest => if depth = 0 then .operator own :: outside 0 rest else outside depth rest
  | depth, .operand _ :: rest | depth, .negation :: rest => outside depth rest

attribute [local simp] depthAfter outside

theorem depthAfter_append {depth middle : Nat} {first : List Mark} (ends : depthAfter depth first = some middle)
    (second : List Mark) : depthAfter depth (first ++ second) = depthAfter middle second := by
  fun_induction depthAfter depth first <;> simp_all

theorem depthAfter_split {depth final : Nat} {first second : List Mark}
    (ends : depthAfter depth (first ++ second) = some final) :
    ∃ middle, depthAfter depth first = some middle ∧ depthAfter middle second = some final := by
  fun_induction depthAfter depth first <;> simp_all

theorem depthAfter_add {depth final : Nat} {marks : List Mark} (ends : depthAfter depth marks = some final) (more : Nat) :
    depthAfter (depth + more) marks = some (final + more) := by
  fun_induction depthAfter depth marks with
  | case1 => simp_all
  | case2 _ _ step | case3 _ _ step =>
    rw [depthAfter, Nat.add_right_comm]
    exact step ends
  | case4 | case6 => cases ends
  | case5 depth _ some_ step | case7 depth _ some_ step =>
    have less : depth + more - 1 = depth - 1 + more := by omega
    rw [depthAfter, if_neg (by omega), less]
    exact step ends
  | case8 _ _ _ step | case9 _ _ step | case10 _ _ _ step =>
    rw [depthAfter]
    exact step ends

/-- Marks that close all their brackets start outside brackets if they end there. -/
theorem depthAfter_start {depth final : Nat} {marks : List Mark} (ends : depthAfter depth marks = some 0)
    (closed : depthAfter 0 marks = some final) : depth = 0 ∧ final = 0 := by
  have more := depthAfter_add closed depth
  rw [Nat.zero_add, ends, Option.some_inj] at more
  omega

theorem outside_append {depth middle : Nat} {first : List Mark} (ends : depthAfter depth first = some middle)
    (second : List Mark) : outside depth (first ++ second) = outside depth first ++ outside middle second := by
  fun_induction depthAfter depth first <;> simp_all <;> split <;> simp_all

/-- Within brackets nothing is outside brackets. -/
theorem outside_succ {depth final : Nat} {marks : List Mark} (ends : depthAfter depth marks = some final) :
    outside (depth + 1) marks = [] := by
  fun_induction depthAfter depth marks with
  | case1 => rfl
  | case2 _ _ step => exact step ends
  | case3 depth _ step =>
    rw [outside, if_neg (Nat.succ_ne_zero depth)]
    exact step ends
  | case4 | case6 => cases ends
  | case5 depth _ some_ step | case7 depth _ some_ step =>
    have less : depth + 1 - 1 = depth - 1 + 1 := by omega
    rw [outside, less]
    exact step ends
  | case8 _ _ _ step | case9 _ _ step => exact step ends
  | case10 depth _ _ step =>
    rw [outside, if_neg (Nat.succ_ne_zero depth)]
    exact step ends

end Mark

open Mark

namespace Fixity

variable {fixity : Fixity} {outermost : Outermost} {marks : List Mark} {value : Expression}

namespace Reads

/-- Brackets are closed in a row that is read. -/
theorem balanced (reads : fixity.Reads outermost marks value) (depth : Nat) : depthAfter depth marks = some depth := by
  induction reads generalizing depth with
  | operand => rfl
  | negated => rfl
  | bracketed _ step => simp [depthAfter, depthAfter_append (step (depth + 1))]
  | operation _ _ _ _ one two => simp [depthAfter, depthAfter_append (one depth), two]
  | conditional _ _ _ _ one two three =>
    simp [depthAfter, depthAfter_append (one depth), depthAfter_append (two (depth + 1)), three]

theorem outside_single (reads : fixity.Reads .single marks value) : outside 0 marks = [] := by
  cases reads with
  | operand => rfl
  | negated => rfl
  | bracketed inside => simp [outside, outside_append (inside.balanced _), Mark.outside_succ (inside.balanced 0)]

/-! ## What stands outermost -/

/-- An operator stands outside brackets below the outermost one. Of two operators of one level the one on the left then
groups on the left, or the outermost one on the right; both group on one side, unless sides may be mixed. -/
def Below (fixity : Fixity) (parent own : BinaryOperator) : Prop :=
  fixity.level parent < fixity.level own ∨
    fixity.level parent = fixity.level own ∧ (own = parent ∨ fixity.side own = .left ∨ fixity.side parent = .right) ∧
      (fixity.mixed = true ∨ fixity.side own = fixity.side parent)

/-- An operator stands outside brackets left of the outermost one. -/
def LeftOf (fixity : Fixity) (parent own : BinaryOperator) : Prop :=
  fixity.level parent < fixity.level own ∨
    fixity.level parent = fixity.level own ∧ fixity.side own = .left ∧ (fixity.mixed = true ∨ fixity.side parent = .left)

/-- An operator stands outside brackets right of the outermost one. -/
def RightOf (fixity : Fixity) (parent own : BinaryOperator) : Prop :=
  fixity.level parent < fixity.level own ∨
    fixity.level parent = fixity.level own ∧ fixity.side parent = .right ∧ (fixity.mixed = true ∨ fixity.side own = .right)

theorem takesLeft_iff {parent child : BinaryOperator} :
    fixity.takesLeft parent child = true ↔ LeftOf fixity parent child := by
  simp [takesLeft, LeftOf, and_assoc]

theorem takesRight_iff {parent child : BinaryOperator} :
    fixity.takesRight parent child = true ↔ RightOf fixity parent child := by
  simp [takesRight, RightOf, and_assoc]

theorem LeftOf.below {parent own : BinaryOperator} (leftOf : LeftOf fixity parent own) : Below fixity parent own := by
  rcases leftOf with tighter | ⟨same, isLeft, sides⟩
  · exact .inl tighter
  · exact .inr ⟨same, .inr (.inl isLeft), sides.imp_right fun isLeft' => isLeft.trans isLeft'.symm⟩

theorem RightOf.below {parent own : BinaryOperator} (rightOf : RightOf fixity parent own) : Below fixity parent own := by
  rcases rightOf with tighter | ⟨same, isRight, sides⟩
  · exact .inl tighter
  · exact .inr ⟨same, .inr (.inr isRight), sides.imp_right fun isRight' => isRight'.trans isRight.symm⟩

/-- What stands below an operation that is the left side of an operator. -/
theorem Below.left {parent child own : BinaryOperator} (takes : LeftOf fixity parent child)
    (below : Below fixity child own) : LeftOf fixity parent own := by
  rcases takes with tighter | ⟨same, isLeft, sides⟩
  · rcases below with more | ⟨equal, -⟩ <;> exact .inl (by omega)
  · rcases below with more | ⟨equal, rfl | isLeft' | isRight, -⟩
    · exact .inl (by omega)
    · exact .inr ⟨same, isLeft, sides⟩
    · exact .inr ⟨same.trans equal, isLeft', sides⟩
    · rw [isLeft] at isRight
      cases isRight

/-- What stands below an operation that is the right side of an operator. -/
theorem Below.right {parent child own : BinaryOperator} (takes : RightOf fixity parent child)
    (below : Below fixity child own) : RightOf fixity parent own := by
  rcases takes with tighter | ⟨same, isRight, sides⟩
  · rcases below with more | ⟨equal, -⟩ <;> exact .inl (by omega)
  · rcases below with more | ⟨equal, -, sides'⟩
    · exact .inl (by omega)
    · refine .inr ⟨same.trans equal, isRight, ?_⟩
      rcases sides with mixed | isRight'
      · exact .inl mixed
      · exact sides'.imp_right fun side => side.trans isRight'

/-- **Outside brackets no operator of a row binds looser than the outermost one.** -/
theorem outside_operation {parent : BinaryOperator} (reads : fixity.Reads (.operation parent) marks value) :
    ∀ mark ∈ outside 0 marks, ∃ own, mark = .operator own ∧ Below fixity parent own := by
  generalize same : Outermost.operation parent = outermost at reads
  induction reads generalizing parent with
  | operand => cases same
  | negated => cases same
  | bracketed => cases same
  | conditional => cases same
  | @operation operator first second before after left right leftRead rightRead standsLeft standsRight one two =>
    obtain rfl := Outermost.operation.inj same
    have whole : outside 0 (before ++ .operator parent :: after) =
        outside 0 before ++ .operator parent :: outside 0 after := by
      rw [outside_append (leftRead.balanced 0)]
      simp [outside]
    rw [whole]
    simp only [List.forall_mem_append, List.forall_mem_cons]
    refine ⟨fun mark member => ?_, ⟨parent, rfl, .inr ⟨rfl, .inl rfl, .inr rfl⟩⟩, fun mark member => ?_⟩
    · cases first with
      | single => simp [leftRead.outside_single] at member
      | conditional => exact standsLeft.elim
      | operation child =>
        obtain ⟨own, rfl, below⟩ := one rfl mark member
        exact ⟨own, rfl, (below.left (takesLeft_iff.mp standsLeft)).below⟩
    · cases second with
      | single => simp [rightRead.outside_single] at member
      | conditional => exact standsRight.elim
      | operation child =>
        obtain ⟨own, rfl, below⟩ := two rfl mark member
        exact ⟨own, rfl, (below.right (takesRight_iff.mp standsRight)).below⟩

/-- Left of an operator. -/
theorem outside_left {operator : BinaryOperator} (reads : fixity.Reads outermost marks value)
    (stands : fixity.StandsLeft operator outermost) :
    ∀ mark ∈ outside 0 marks, ∃ own, mark = .operator own ∧ LeftOf fixity operator own := by
  intro mark member
  cases outermost with
  | single => simp [reads.outside_single] at member
  | conditional => exact stands.elim
  | operation child =>
    obtain ⟨own, rfl, below⟩ := reads.outside_operation mark member
    exact ⟨own, rfl, below.left (takesLeft_iff.mp stands)⟩

/-- Right of an operator. -/
theorem outside_right {operator : BinaryOperator} (reads : fixity.Reads outermost marks value)
    (stands : fixity.StandsRight operator outermost) :
    ∀ mark ∈ outside 0 marks, ∃ own, mark = .operator own ∧ RightOf fixity operator own := by
  intro mark member
  cases outermost with
  | single => simp [reads.outside_single] at member
  | conditional => exact stands.elim
  | operation child =>
    obtain ⟨own, rfl, below⟩ := reads.outside_operation mark member
    exact ⟨own, rfl, below.right (takesRight_iff.mp stands)⟩

/-- No conditional stands outside brackets in a row that is none. -/
theorem no_question (reads : fixity.Reads outermost marks value) (plain : outermost ≠ .conditional) :
    .question ∉ outside 0 marks := by
  intro member
  cases outermost with
  | single => simp [reads.outside_single] at member
  | conditional => exact plain rfl
  | operation child =>
    obtain ⟨own, same, -⟩ := reads.outside_operation _ member
    cases same

/-! ## One reading at most -/

/-- Two cuts of one row are the same, or one is after the other. -/
theorem cut_cases {first second : Mark} {before after before' after' : List Mark}
    (same : before ++ first :: after = before' ++ second :: after') :
    (before = before' ∧ first = second ∧ after = after') ∨
      (∃ middle, before' = before ++ first :: middle ∧ after = middle ++ second :: after') ∨
      ∃ middle, before = before' ++ second :: middle ∧ after' = middle ++ first :: after := by
  rcases List.append_eq_append_iff.mp same with ⟨middle, rfl, rest⟩ | ⟨middle, rfl, rest⟩
  · cases middle with
    | nil =>
      obtain ⟨rfl, rfl⟩ := List.cons.inj rest
      exact .inl ⟨(List.append_nil _).symm, rfl, rfl⟩
    | cons mark middle =>
      obtain ⟨rfl, rfl⟩ := List.cons.inj rest
      exact .inr (.inl ⟨middle, rfl, rfl⟩)
  · cases middle with
    | nil =>
      obtain ⟨rfl, rfl⟩ := List.cons.inj rest
      exact .inl ⟨List.append_nil _, rfl, rfl⟩
    | cons mark middle =>
      obtain ⟨rfl, rfl⟩ := List.cons.inj rest
      exact .inr (.inr ⟨middle, rfl, rfl⟩)

/-- Of two operators of a row the later one is not outermost right of the earlier one and the earlier one left of the
later one. -/
theorem not_both {first second : BinaryOperator} {before middle after : List Mark} {a b c : Expression}
    {one two three : Outermost} (outer : fixity.Reads one before a)
    (left : fixity.Reads two (before ++ .operator first :: middle) b)
    (right : fixity.Reads three (middle ++ .operator second :: after) c)
    (standsLeft : fixity.StandsLeft second two) (standsRight : fixity.StandsRight first three) : False := by
  have closed : depthAfter 0 middle = some 0 := by
    have whole := left.balanced 0
    rwa [depthAfter_append (outer.balanced 0)] at whole
  have earlier : .operator first ∈ outside 0 (before ++ .operator first :: middle) := by
    rw [outside_append (outer.balanced 0)]
    simp [outside]
  have later : .operator second ∈ outside 0 (middle ++ .operator second :: after) := by
    rw [outside_append closed]
    simp [outside]
  obtain ⟨own, same, fromLeft⟩ := left.outside_left standsLeft _ earlier
  obtain rfl := Mark.operator.inj same
  obtain ⟨own, same, fromRight⟩ := right.outside_right standsRight _ later
  obtain rfl := Mark.operator.inj same
  rcases fromLeft with tighter | ⟨equal, isLeft, -⟩
  · rcases fromRight with more | ⟨equal, -⟩ <;> omega
  · rcases fromRight with more | ⟨-, isRight, -⟩
    · omega
    · rw [isLeft] at isRight
      cases isRight

/-- The condition of a conditional ends at one place. -/
theorem not_question {before middle : List Mark} {a b : Expression} {one two : Outermost}
    (outer : fixity.Reads one before a) (left : fixity.Reads two (before ++ .question :: middle) b)
    (plain : two ≠ .conditional) : False := by
  refine left.no_question plain ?_
  rw [outside_append (outer.balanced 0)]
  simp [outside]

/-- The first branch of a conditional ends at one place. -/
theorem not_colon {before middle : List Mark} {a b : Expression} {one two : Outermost}
    (outer : fixity.Reads one before a) (left : fixity.Reads two (before ++ .colon :: middle) b) : False := by
  have whole := left.balanced 0
  rw [depthAfter_append (outer.balanced 0)] at whole
  simp [depthAfter] at whole

/-- An operation or a conditional has a sign outside brackets. -/
theorem outside_eq_nil_iff (reads : fixity.Reads outermost marks value) : outside 0 marks = [] ↔ outermost = .single := by
  constructor
  · intro none_
    cases reads with
    | operand => rfl
    | negated => rfl
    | bracketed => rfl
    | operation left =>
      rw [outside_append (left.balanced 0)] at none_
      simp [outside] at none_
    | conditional test =>
      rw [outside_append (test.balanced 0)] at none_
      simp [outside] at none_
  · rintro rfl
    exact reads.outside_single

theorem question_mem (reads : fixity.Reads .conditional marks value) : .question ∈ outside 0 marks := by
  cases reads with
  | conditional test =>
    rw [outside_append (test.balanced 0)]
    simp [outside]

/-- What stands outermost in a row is of one form. -/
theorem single_iff {outermost' : Outermost} {value' : Expression} (one : fixity.Reads outermost marks value)
    (two : fixity.Reads outermost' marks value') : outermost = .single ↔ outermost' = .single :=
  one.outside_eq_nil_iff.symm.trans two.outside_eq_nil_iff

theorem conditional_iff {outermost' : Outermost} {value' : Expression} (one : fixity.Reads outermost marks value)
    (two : fixity.Reads outermost' marks value') : outermost = .conditional ↔ outermost' = .conditional := by
  constructor
  · rintro rfl
    by_contra plain
    exact two.no_question plain one.question_mem
  · rintro rfl
    by_contra plain
    exact one.no_question plain two.question_mem

/-- **A row is read as one expression at most.** -/
theorem unique {outermost' : Outermost} {value' : Expression} (one : fixity.Reads outermost marks value)
    (two : fixity.Reads outermost' marks value') : value = value' := by
  induction one generalizing outermost' value' with
  | operand value =>
    obtain rfl := ((operand value).single_iff two).mp rfl
    cases two with
    | operand => rfl
  | negated isNumber =>
    obtain rfl := ((negated isNumber).single_iff two).mp rfl
    cases two with
    | negated => rfl
  | bracketed inside step =>
    obtain rfl := (inside.bracketed.single_iff two).mp rfl
    generalize equal : Mark.opening :: (_ ++ [Mark.closing]) = marks' at two
    cases two with
    | operand => cases equal
    | negated => cases equal
    | bracketed inside' =>
      obtain rfl := List.append_inj_left' (List.cons.inj equal).2 rfl
      exact step inside'
  | operation left right standsLeft standsRight step later =>
    have single := (left.operation right standsLeft standsRight).single_iff two
    have conditional := (left.operation right standsLeft standsRight).conditional_iff two
    generalize equal : _ ++ Mark.operator _ :: _ = marks' at two
    cases two with
    | operand => simp at single
    | negated => simp at single
    | bracketed => simp at single
    | conditional => simp at conditional
    | operation left' right' standsLeft' standsRight' =>
      rcases cut_cases equal with ⟨rfl, same, rfl⟩ | ⟨middle, rfl, rfl⟩ | ⟨middle, rfl, rfl⟩
      · obtain rfl := Mark.operator.inj same
        rw [step left', later right']
      · exact (not_both left left' right standsLeft' standsRight).elim
      · exact (not_both left' left right' standsLeft standsRight').elim
  | conditional test yes no plain step later last =>
    obtain rfl := ((test.conditional yes no plain).conditional_iff two).mp rfl
    generalize equal : _ ++ Mark.question :: _ = marks' at two
    cases two with
    | conditional test' yes' no' plain' =>
      rcases cut_cases equal with ⟨rfl, -, branches⟩ | ⟨middle, rfl, -⟩ | ⟨middle, rfl, -⟩
      · rcases cut_cases branches with ⟨rfl, -, rfl⟩ | ⟨middle, rfl, -⟩ | ⟨middle, rfl, -⟩
        · rw [step test', later yes', last no']
        · exact (not_colon yes yes').elim
        · exact (not_colon yes' yes).elim
      · exact (not_question test test' plain').elim
      · exact (not_question test' test plain).elim

/-! ## Neighbours -/

/-- An operator of a row that stands outside brackets left of the outermost one. -/
theorem leftOf_of_append {operator own : BinaryOperator} {before after : List Mark}
    (reads : fixity.Reads outermost (before ++ .operator own :: after) value)
    (stands : fixity.StandsLeft operator outermost) (isOutside : depthAfter 0 before = some 0) :
    LeftOf fixity operator own := by
  obtain ⟨same, equal, leftOf⟩ := reads.outside_left stands (.operator own) (by simp [outside_append isOutside, outside])
  rwa [Mark.operator.inj equal]

/-- An operator of a row that stands outside brackets right of the outermost one. -/
theorem rightOf_of_append {operator own : BinaryOperator} {before after : List Mark}
    (reads : fixity.Reads outermost (before ++ .operator own :: after) value)
    (stands : fixity.StandsRight operator outermost) (isOutside : depthAfter 0 before = some 0) :
    RightOf fixity operator own := by
  obtain ⟨same, equal, rightOf⟩ := reads.outside_right stands (.operator own) (by simp [outside_append isOutside, outside])
  rwa [Mark.operator.inj equal]

/-- **Operators of one level with nothing looser between group on one side**, where sides may not be mixed. They may stand
anywhere in a row without conditionals. -/
theorem sides_of_neighbours (strict : fixity.mixed = false) (reads : fixity.Reads outermost marks value)
    (noQuestion : .question ∉ marks) {between : List Mark} {first second : BinaryOperator}
    (part : .operator first :: (between ++ [.operator second]) <:+: marks)
    (closed : depthAfter 0 between = some 0) (level : fixity.level first = fixity.level second)
    (noLooser : ∀ own, .operator own ∈ outside 0 between → fixity.level first ≤ fixity.level own) :
    fixity.side first = fixity.side second ∧ fixity.side first ≠ .none := by
  obtain ⟨before, after, whole⟩ := part
  have same : marks = before ++ .operator first :: (between ++ .operator second :: after) := by simp [← whole]
  clear whole
  induction reads generalizing before after with
  | operand =>
    have length := congrArg List.length same
    simp only [List.length_cons, List.length_append, List.length_nil] at length
    omega
  | negated =>
    have length := congrArg List.length same
    cases before with
    | nil => cases same
    | cons mark before =>
      simp only [List.length_cons, List.length_append, List.length_nil] at length
      omega
  | @bracketed _ marks _ _ step =>
    cases before with
    | nil => cases same
    | cons mark before =>
      have inner := (List.cons.inj same).2
      rcases List.eq_nil_or_concat after with rfl | ⟨after, last, rfl⟩
      · have ends := congrArg List.getLast? inner
        simp [List.getLast?_append, List.getLast?_cons] at ends
      · have cut : marks ++ [.closing] =
            (before ++ .operator first :: (between ++ .operator second :: after)) ++ [last] := by
          simpa using inner
        exact step (fun member => noQuestion (by simp [member])) _ _ (List.append_inj_left' cut rfl)
  | conditional => simp at noQuestion
  | @operation parent one two left right _ _ leftRead rightRead standsLeft standsRight stepLeft stepRight =>
    have noQuestionLeft : .question ∉ left := fun member => noQuestion (by simp [member])
    have noQuestionRight : .question ∉ right := fun member => noQuestion (by simp [member])
    rcases cut_cases same with ⟨rfl, isFirst, rfl⟩ | ⟨middle, rfl, rest⟩ | ⟨middle, rfl, rest⟩
    · obtain rfl := Mark.operator.inj isFirst
      rcases rightRead.rightOf_of_append standsRight closed with tighter | ⟨-, isRight, mixed | isRight'⟩
      · omega
      · simp [strict] at mixed
      · exact ⟨isRight.trans isRight'.symm, by simp [isRight]⟩
    · exact stepRight noQuestionRight _ _ rest
    · -- The first of the two stands left of the outermost operator, outside brackets if the second one stands right of it.
      obtain ⟨depth, isDepth, ends⟩ := depthAfter_split (leftRead.balanced 0)
      simp only [depthAfter] at ends
      rcases cut_cases rest with ⟨rfl, isSecond, rfl⟩ | ⟨further, rfl, -⟩ | ⟨further, rfl, rfl⟩
      · obtain rfl := Mark.operator.inj isSecond
        obtain ⟨rfl, -⟩ := depthAfter_start ends closed
        rcases leftRead.leftOf_of_append standsLeft isDepth with tighter | ⟨-, isLeft, mixed | isLeft'⟩
        · omega
        · simp [strict] at mixed
        · exact ⟨isLeft.trans isLeft'.symm, by simp [isLeft]⟩
      · exact stepLeft noQuestionLeft _ _ rfl
      · obtain ⟨between', isDepth', closed'⟩ := depthAfter_split closed
        obtain ⟨rfl, rfl⟩ := depthAfter_start ends isDepth'
        have leftOf := leftRead.leftOf_of_append standsLeft isDepth
        have notLooser := noLooser parent (by simp [outside_append isDepth', outside])
        simp only [depthAfter] at closed'
        have rightOf := rightRead.rightOf_of_append standsRight closed'
        rcases leftOf with tighter | ⟨equal, -, mixed | isLeft⟩
        · omega
        · simp [strict] at mixed
        · rcases rightOf with tighter | ⟨-, isRight, -⟩
          · omega
          · rw [isLeft] at isRight
            cases isRight

end Reads

end Fixity

end DerwLang.Operators
