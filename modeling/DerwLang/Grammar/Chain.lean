/-
**How chains of operators group.**

A chain is an operand followed by operators and operands. It is grouped with a stack of operands that still wait
for what stands on their right: an operator first closes every waiting operator that binds at least as tightly
as its side of grouping asks, and then waits itself.

Comparisons do not chain. `Comparing` remembers, while a chain is read, the comparison that a further one would
continue: an operator that binds looser ends it, one that binds tighter leaves it.
-/

import DerwLang.Syntax.Expression

namespace DerwLang

/-- One operator of a chain and the operand after it. -/
structure Link where
  operator : BinaryOperator
  operand : Expression

/-- An operand that waits, with its operator, for what stands on the right. -/
structure Waiting where
  operand : Expression
  operator : BinaryOperator

namespace Chain

/-- The least precedence that stays inside the right operand. -/
def rightPrecedence (operator : BinaryOperator) : Nat :=
  match operator.associativity with
  | .right => operator.precedence
  | .left | .none => operator.precedence + 1

/-- The operand after every waiting operator that an operator of the given precedence closes, and what still
waits. -/
def close (precedence : Nat) (operand : Expression) : List Waiting → Expression × List Waiting
  | [] => (operand, [])
  | top :: below =>
    if precedence < rightPrecedence top.operator then
      close precedence (.binary top.operator top.operand operand) below
    else (operand, top :: below)

/-- The expression that waiting operands, the current one and the rest of the chain make. -/
def groupFrom (waiting : List Waiting) (operand : Expression) : List Link → Expression
  | [] => (close 0 operand waiting).1
  | link :: rest =>
    let closed := close link.operator.precedence operand waiting
    groupFrom (⟨closed.1, link.operator⟩ :: closed.2) link.operand rest

/-- The expression that a chain makes. -/
def group (first : Expression) (links : List Link) : Expression :=
  groupFrom [] first links

end Chain

/-- The comparison that a further comparison would continue. -/
abbrev Comparing := Option BinaryOperator

/-- What is remembered after one more operator. -/
def Comparing.after (comparing : Comparing) (operator : BinaryOperator) : Comparing :=
  if operator.isComparison then some operator
  else if operator.precedence < BinaryOperator.equal.precedence then none
  else comparing

/-- The comparison that the operator would continue. -/
def Comparing.chainedWith (comparing : Comparing) (operator : BinaryOperator) : Option BinaryOperator :=
  if operator.isComparison then comparing else none

end DerwLang
