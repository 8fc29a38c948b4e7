/-
**Written chains group as they were written.**

The operands and operators of a written expression stand in a row. Reading the row onto what waits leaves the expression in
pieces: an operand, and pending operators that a looser operator closes (`Chain.Rests`). `Chain.Groups` says so of a row
for everything that may wait below it. A row is made of single operands (`groups_operand`) and of two rows with an operator
between (`groups_binary`), where each side binds tightly enough to stand without brackets. So a row groups to its expression
(`group_of_groups`).
-/

import DerwLang.Grammar.Chain
import DerwLang.Proofs.Layout.Settled

namespace DerwLang

open BinaryOperator

namespace Chain

/-! ## What waits -/

/-- An operator of the given precedence closes nothing that waits. -/
def Open (precedence : Nat) (waiting : List Waiting) : Prop :=
  ∀ top ∈ waiting.head?, rightPrecedence top.operator ≤ precedence

theorem open_nil (precedence : Nat) : Open precedence [] := by simp [Open]

theorem open_cons {precedence : Nat} {top : Waiting} {below : List Waiting} :
    Open precedence (top :: below) ↔ rightPrecedence top.operator ≤ precedence := by simp [Open]

theorem Open.mono {precedence higher : Nat} {waiting : List Waiting} (isOpen : Open precedence waiting)
    (le : precedence ≤ higher) : Open higher waiting :=
  fun top member => Nat.le_trans (isOpen top member) le

theorem close_of_open {precedence : Nat} {waiting : List Waiting} (isOpen : Open precedence waiting)
    (operand : Expression) : close precedence operand waiting = (operand, waiting) := by
  cases waiting with
  | nil => rfl
  | cons top below => rw [close, if_neg (Nat.not_lt.mpr (open_cons.mp isOpen))]

theorem close_cons {precedence : Nat} {top : Waiting} (closes : precedence < rightPrecedence top.operator)
    (below : List Waiting) (operand : Expression) :
    close precedence operand (top :: below) = close precedence (.binary top.operator top.operand operand) below := by
  rw [close, if_pos closes]

/-! ## What a row leaves behind -/

/-- The expression is an application by `<|`. -/
def IsPipeFrom : Expression → Prop
  | .binary .pipeFrom _ _ => True
  | _ => False

/-- The expression that the waiting functions of `<|` make with their argument. -/
def applyAll : List Waiting → Expression → Expression
  | [], argument => argument
  | function :: below, argument => applyAll below (.binary .pipeFrom function.operand argument)

/-- The functions wait for the argument of their `<|`. -/
def Functions (waiting : List Waiting) : Prop :=
  ∀ function ∈ waiting, function.operator = .pipeFrom

/-- The precedence of an operand that nothing takes apart. -/
def operandPrecedence : Nat := 8

/-- After a row whose operators have the least precedence, the last operand and the pending operators make up the
expression. Of the operators that do not bind looser, `|>` leaves the functions of `<|` pending. -/
structure Rests (least : Nat) (value : Expression) (pending : List Waiting) (last : Expression) (waiting : List Waiting) :
    Prop where
  looser : ∀ precedence < least, close precedence last (pending ++ waiting) = close precedence value waiting
  same : least ∈ [1, 2, 4, 5] → close least last (pending ++ waiting) = close least value waiting
  piped : 6 ≤ least → (least = operandPrecedence → ¬ IsPipeFrom value) → Open 6 waiting →
    ∃ functions argument, Functions functions ∧ ¬ IsPipeFrom argument ∧ applyAll functions argument = value ∧
      close 6 last (pending ++ waiting) = (argument, functions ++ waiting)

/-- The row groups to the expression, whatever waits below. -/
def Groups (least : Nat) (value first : Expression) (links : List Link) : Prop :=
  ∀ waiting, Open least waiting → ∃ pending last,
    (∀ rest, groupFrom waiting first (links ++ rest) = groupFrom (pending ++ waiting) last rest) ∧
      Rests least value pending last waiting

/-- **A row groups to its expression.** -/
theorem group_of_groups {least : Nat} {value first : Expression} {links : List Link} (positive : 0 < least)
    (groups : Groups least value first links) : group first links = value := by
  obtain ⟨pending, last, runs, rests⟩ := groups [] (open_nil least)
  have whole := runs []
  rw [List.append_nil, groupFrom, rests.looser 0 positive] at whole
  rw [group, whole]
  rfl

/-- A single operand is a row. -/
theorem groups_operand (value : Expression) : Groups operandPrecedence value value [] := by
  intro waiting _
  refine ⟨[], value, fun _ => rfl, fun _ _ => rfl, fun _ => rfl, fun _ other isOpen => ?_⟩
  exact ⟨[], value, by simp [Functions], other rfl, rfl, close_of_open isOpen value⟩

/-! ## Two rows with an operator between -/

theorem joinInto_applyAll {argument right joined : Expression} (same : Settled.joinInto argument right = joined)
    (functions : List Waiting) :
    Settled.joinInto (applyAll functions argument) right = applyAll functions joined := by
  induction functions generalizing argument joined with
  | nil => exact same
  | cons function below step =>
    refine step ?_
    rw [Settled.joinInto, same]

theorem joinInto_of_not_pipeFrom {left : Expression} (other : ¬ IsPipeFrom left) (right : Expression) :
    Settled.joinInto left right = .binary .pipeInto left right := by
  fun_cases Settled.joinInto left right with
  | case1 => exact absurd trivial other
  | case2 => rfl

theorem applyAll_append (first second : List Waiting) (argument : Expression) :
    applyAll (first ++ second) argument = applyAll second (applyAll first argument) := by
  induction first generalizing argument with
  | nil => rfl
  | cons function below step => exact step _

/-- Looser operators close the functions that wait. -/
theorem close_functions {functions : List Waiting} (areFunctions : Functions functions) {precedence : Nat}
    (looser : functions ≠ [] → precedence < 6) (argument : Expression) (waiting : List Waiting) :
    close precedence argument (functions ++ waiting) = close precedence (applyAll functions argument) waiting := by
  induction functions generalizing argument with
  | nil => rfl
  | cons function below step =>
    have isFunction : function.operator = .pipeFrom := areFunctions function List.mem_cons_self
    have low := looser (List.cons_ne_nil function below)
    rw [List.cons_append, close_cons (by rw [isFunction]; exact low), isFunction]
    exact step (fun other member => areFunctions other (List.mem_cons_of_mem _ member)) (fun _ => low) _

/-- The functions that wait stay open to `|>`. -/
theorem open_functions {functions waiting : List Waiting} (areFunctions : Functions functions)
    (isOpen : Open 6 waiting) : Open 6 (functions ++ waiting) := by
  cases functions with
  | nil => exact isOpen
  | cons function below =>
    rw [List.cons_append, open_cons, areFunctions function List.mem_cons_self]
    decide

theorem le_rightPrecedence (operator : BinaryOperator) : operator.precedence ≤ rightPrecedence operator := by
  cases operator <;> decide

/-- What an operator finds on its left: the argument that it goes on with, and the functions that stay pending. -/
theorem close_left {operator : BinaryOperator} {least : Nat} {left right last : Expression} {pending waiting : List Waiting}
    (rests : Rests least left pending last waiting) (isOpen : Open operator.precedence waiting)
    (tight : operator.precedence < least ∨ operator.precedence = least ∧ operator.associativity = .left)
    (other : least = operandPrecedence → operator = .pipeInto → ¬ IsPipeFrom left) :
    ∃ functions argument, Functions functions ∧ (functions ≠ [] → operator = .pipeInto) ∧
      applyAll functions (.binary operator argument right) = Settled.join operator left right ∧
      close operator.precedence last (pending ++ waiting) = (argument, functions ++ waiting) := by
  by_cases pipe : operator = .pipeInto
  · subst pipe
    have enough : 6 ≤ least := by
      rcases tight with looser | ⟨same, -⟩
      · exact Nat.le_of_lt looser
      · exact Nat.le_of_eq same
    obtain ⟨functions, argument, areFunctions, notPipe, rfl, closed⟩ := rests.piped enough (fun same => other same rfl) isOpen
    refine ⟨functions, argument, areFunctions, fun _ => rfl, ?_, closed⟩
    exact (joinInto_applyAll (joinInto_of_not_pipeFrom notPipe right) functions).symm
  · have closed : close operator.precedence last (pending ++ waiting) = (left, waiting) := by
      rw [← close_of_open isOpen left]
      rcases tight with looser | ⟨rfl, leftGrouping⟩
      · exact rests.looser _ looser
      · refine rests.same ?_
        cases operator <;> simp_all [precedence, associativity]
    refine ⟨[], left, by simp [Functions], fun some_ => absurd rfl some_, ?_, closed⟩
    cases operator <;> first | rfl | exact absurd rfl pipe

/-- **Two rows with an operator between are a row.** -/
theorem groups_binary {operator : BinaryOperator} {least more : Nat} {left right first second : Expression}
    {links others : List Link} (one : Groups least left first links) (two : Groups more right second others)
    (tight : operator.precedence < least ∨ operator.precedence = least ∧ operator.associativity = .left)
    (tightRight : rightPrecedence operator ≤ more)
    (leftOther : least = operandPrecedence → operator = .pipeInto → ¬ IsPipeFrom left)
    (rightOther : more = operandPrecedence → operator = .pipeFrom → ¬ IsPipeFrom right) :
    Groups operator.precedence (Settled.join operator left right) first (links ++ ⟨operator, second⟩ :: others) := by
  intro waiting isOpen
  have enough : operator.precedence ≤ least := by
    rcases tight with looser | ⟨same, -⟩
    · exact Nat.le_of_lt looser
    · exact Nat.le_of_eq same
  have enoughRight : operator.precedence ≤ more := Nat.le_trans (le_rightPrecedence operator) tightRight
  obtain ⟨pending, last, runs, rests⟩ := one waiting (isOpen.mono enough)
  obtain ⟨functions, argument, areFunctions, onlyPipe, whole, closed⟩ :=
    @close_left operator least left right last pending waiting rests isOpen tight leftOther
  obtain ⟨pendingRight, lastRight, runsRight, restsRight⟩ :=
    two (⟨argument, operator⟩ :: (functions ++ waiting)) (open_cons.mpr tightRight)
  refine ⟨pendingRight ++ ⟨argument, operator⟩ :: functions, lastRight, fun rest => ?_, ?_, ?_, ?_⟩
  · rw [List.append_assoc, runs, List.cons_append, groupFrom, closed, runsRight]
    simp
  · intro precedence looser
    have low : functions ≠ [] → precedence < 6 := by
      intro some_
      rw [onlyPipe some_] at looser
      exact looser
    rw [List.append_assoc, List.cons_append, restsRight.looser precedence (Nat.lt_of_lt_of_le looser enoughRight),
      close_cons (Nat.lt_of_lt_of_le looser (le_rightPrecedence operator)), close_functions areFunctions low, whole]
  · intro level
    have above : operator.precedence < rightPrecedence operator := by
      cases operator <;> first | decide | simp [precedence] at level
    have none_ : functions = [] := by
      by_contra some_
      rw [onlyPipe some_] at level
      simp [precedence] at level
    subst none_
    rw [List.append_assoc, List.cons_append, restsRight.looser _ (Nat.lt_of_lt_of_le above tightRight),
      close_cons above, ← whole]
    rfl
  · intro high _ isOpenPipe
    by_cases pipe : operator = .pipeFrom
    · subst pipe
      have none_ : functions = [] := by
        by_contra some_
        exact absurd (onlyPipe some_) (by decide)
      subst none_
      obtain ⟨inner, innermost, areInner, notPipe, rfl, closedRight⟩ :=
        restsRight.piped enoughRight (fun same => rightOther same rfl) (open_cons.mpr (Nat.le_refl 6))
      refine ⟨inner ++ [⟨argument, .pipeFrom⟩], innermost, ?_, notPipe, ?_, ?_⟩
      · intro function member
        rcases List.mem_append.mp member with before | new
        · exact areInner function before
        · rw [List.mem_singleton.mp new]
      · rw [applyAll_append, ← whole]
        rfl
      · simpa using closedRight
    · have above : 6 < rightPrecedence operator := by
        cases operator <;> first | decide | exact absurd rfl pipe | exact absurd high (by decide)
      refine ⟨functions, .binary operator argument right, areFunctions, ?_, whole, ?_⟩
      · cases operator <;> first | exact id | exact absurd rfl pipe
      · rw [List.append_assoc, List.cons_append, restsRight.looser 6 (Nat.lt_of_lt_of_le above tightRight),
          close_cons above, close_of_open (open_functions areFunctions isOpenPipe)]

end Chain

end DerwLang
