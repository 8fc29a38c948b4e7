/-
**Binary operators.**

Every operator has a precedence and a side on which it groups with its equals. Comparisons group on neither
side, and application of functions binds tighter than all operators.
-/

import DerwLang.Token.Basic

namespace DerwLang

/-- The side on which operators of one precedence group. -/
inductive Associativity
  | left
  | right
  | none
deriving DecidableEq, Repr

/-- The binary operators. -/
inductive BinaryOperator
  | add
  | subtract
  | multiply
  | divide
  | equal
  | notEqual
  | less
  | lessEqual
  | greater
  | greaterEqual
  | and
  | or
  /-- `::`, an element in front of a list -/
  | prepend
  /-- `|>`, an argument piped into the function on its right -/
  | pipeInto
  /-- `<|`, a function applied to what stands on its right -/
  | pipeFrom
deriving DecidableEq, Repr

namespace BinaryOperator

/-- All binary operators. -/
def all : List BinaryOperator :=
  [.add, .subtract, .multiply, .divide, .equal, .notEqual, .less, .lessEqual, .greater, .greaterEqual,
   .and, .or, .prepend, .pipeInto, .pipeFrom]

/-- The sign that an operator is written with. -/
def sign : BinaryOperator → Sign
  | .add => .plus
  | .subtract => .minus
  | .multiply => .star
  | .divide => .slash
  | .equal => .equal
  | .notEqual => .notEqual
  | .less => .less
  | .lessEqual => .lessEqual
  | .greater => .greater
  | .greaterEqual => .greaterEqual
  | .and => .and
  | .or => .or
  | .prepend => .cons
  | .pipeInto => .pipeRight
  | .pipeFrom => .pipeLeft

/-- How an operator is written. -/
def symbol (operator : BinaryOperator) : String :=
  operator.sign.symbol

/-- The operator that a sign stands for; the sign of ranges stands for none. -/
def ofSign? : Sign → Option BinaryOperator
  | .plus => some .add
  | .minus => some .subtract
  | .star => some .multiply
  | .slash => some .divide
  | .equal => some .equal
  | .notEqual => some .notEqual
  | .less => some .less
  | .lessEqual => some .lessEqual
  | .greater => some .greater
  | .greaterEqual => some .greaterEqual
  | .and => some .and
  | .or => some .or
  | .cons => some .prepend
  | .pipeRight => some .pipeInto
  | .pipeLeft => some .pipeFrom
  | .range => none

/-- The operator that a token stands for. -/
def ofKind? : Token.Kind → Option BinaryOperator
  | .operator sign => ofSign? sign
  | _ => none

/-- How tightly an operator binds. -/
def precedence : BinaryOperator → Nat
  | .or => 1
  | .and => 2
  | .equal | .notEqual | .less | .lessEqual | .greater | .greaterEqual => 3
  | .add | .subtract => 4
  | .multiply | .divide => 5
  | .pipeInto | .pipeFrom => 6
  | .prepend => 7

/-- The side on which an operator groups with its equals. -/
def associativity : BinaryOperator → Associativity
  | .equal | .notEqual | .less | .lessEqual | .greater | .greaterEqual => .none
  | .prepend | .pipeFrom => .right
  | _ => .left

/-- The four operations on numbers. -/
def isArithmetic : BinaryOperator → Bool
  | .add | .subtract | .multiply | .divide => true
  | _ => false

/-- The operators that group on neither side. -/
def isComparison (operator : BinaryOperator) : Bool :=
  operator.associativity == .none

/-- The two pipes. -/
def isPipe : BinaryOperator → Bool
  | .pipeInto | .pipeFrom => true
  | _ => false

/-- An operator is found by its sign. -/
theorem ofSign?_sign (operator : BinaryOperator) : ofSign? operator.sign = some operator := by
  cases operator <;> rfl

end BinaryOperator

end DerwLang
