/-
**What the statements of list patterns do when they run.**

A scope tells the value of every variable that can be read. Statements bind further variables (`Statement.bindings?`),
conditions look at those there are (`Condition.holds?`), and the block of a guard has a scope of its own. A variable
cannot be read before the statement of its block that declares it has run (`Scope.hide`), and no block declares a
name twice. A run ends in one of three ways (`Outcome`): it faults, it gets past the statements, or it reaches
work, the statements of a branch body.

Texts in a program stand for values in a way that is left open here: `Reading` says what text a quotation has, and
what text a template has in a scope.
-/

import DerwLang.Ecma.Lowering

namespace DerwLang.Ecma

/-! ## Values and scopes -/

/-- The values that list patterns tell apart. An object answers every name, with `undefined` if nothing else. -/
inductive Value
  | undefined
  | text (body : String)
  | number (value : Int)
  | list (items : List Value)
  | object (member : String → Value)

namespace Value

/-- What a value answers to a name; `undefined` itself cannot be asked, and no text, number or list has a member that
a pattern names. -/
def member? : Value → String → Option Value
  | .undefined, _ => none
  | .object member, name => some (member name)
  | _, _ => some .undefined

/-- The value is the given text. -/
def isText : Value → String → Bool
  | .text body, other => body == other
  | _, _ => false

/-- The items of a list. -/
def items? : Value → Option (List Value)
  | .list items => some items
  | _ => none

/-- The number that a value is. -/
def number? : Value → Option Int
  | .number value => some value
  | _ => none

/-- The item at an index, `undefined` where there is none. -/
def itemAt (items : List Value) (index : Nat) : Value :=
  items[index]?.getD .undefined

end Value

/-- The variables that can be read, with their values. -/
abbrev Scope := String → Option Value

namespace Scope

/-- The scope with one more variable. -/
def bind (name : String) (value : Value) (scope : Scope) : Scope :=
  fun other => if other = name then some value else scope other

/-- The scope with further variables. -/
def bindAll (bindings : List (String × Value)) (scope : Scope) : Scope :=
  fun other => (bindings.lookup other).or (scope other)

/-- The scope at the start of a block that declares the names: none of them can be read yet. -/
def hide (names : List String) (scope : Scope) : Scope :=
  fun other => if other ∈ names then none else scope other

/-- The items of the list that a variable holds. -/
def items? (scope : Scope) (name : String) : Option (List Value) :=
  (scope name).bind Value.items?

/-- The number that a variable holds. -/
def number? (scope : Scope) (name : String) : Option Int :=
  (scope name).bind Value.number?

end Scope

/-- What the texts of a program stand for. -/
structure Reading where
  /-- the text of a quotation -/
  quoted : String → String
  /-- the text of a template, the variables in it read in a scope -/
  template : Scope → String → String

/-! ## Conditions -/

/-- The value passes the test, if it can be tested at all. -/
def Anchor.accepts? (reading : Reading) (scope : Scope) : Anchor → Value → Option Bool
  | .tag name, value => (value.member? "kind").map (·.isText name)
  | .quoted text, value => some (value.isText (reading.quoted text))
  | .template text, value => some (value.isText (reading.template scope text))

/-- All tests are passed; those after one that fails are not made. -/
def ElementTest.allHold? (reading : Reading) (scope : Scope) : List ElementTest → Option Bool
  | [] => some true
  | test :: rest =>
    match (scope test.subject).bind (test.anchor.accepts? reading scope) with
    | some true => allHold? reading scope rest
    | result => result

/-- The condition holds, if what it asks about can be read. -/
def Condition.holds? (reading : Reading) (scope : Scope) : Condition → Option Bool
  | .lengthIs list length => (scope.items? list).map (·.length == length)
  | .lengthAtLeast list length => (scope.items? list).map (length ≤ ·.length)
  | .notEmpty list => (scope.items? list).map (0 < ·.length)
  | .isFound index => (scope.number? index).map (-1 < ·)
  | .elements tests => ElementTest.allHold? reading scope tests

/-! ## Statements -/

/-- The search from an index on: it stops at the first value that passes the test, and gives minus one when there is
none. The variable of the loop can be read in the test. -/
def searchFrom (reading : Reading) (scope : Scope) (cursor : String) (anchor : Anchor) :
    Nat → List Value → Option Int
  | _, [] => some (-1)
  | index, value :: rest =>
    match anchor.accepts? reading (scope.bind cursor (.number index)) value with
    | none => none
    | some true => some index
    | some false => searchFrom reading scope cursor anchor (index + 1) rest

/-- The variables that a destructuring binds: one item each, `undefined` where the list is too short, and all items
after them. -/
def elementValues (rest : Option String) : List String → List Value → List (String × Value)
  | [], items => rest.toList.map fun name => (name, .list items)
  | name :: names, [] => (name, .undefined) :: elementValues rest names []
  | name :: names, item :: items => (name, item) :: elementValues rest names items

/-- The variables that a statement declares in its block. What the statements of a branch body declare is left to
them. -/
def Statement.declares : Statement → List String
  | .bindName name _ => [name]
  | .bindElements names rest _ => names ++ rest.toList
  | .bindFields names _ => names
  | .bindElementAt name _ _ => [name]
  | .bindBefore name _ _ => [name]
  | .bindAfter name _ _ => [name]
  | .search found _ _ _ => [found]
  | _ => []

/-- The variables that a block declares. -/
def declaredNames (block : List Statement) : List String :=
  block.flatMap Statement.declares

/-- The variables that a statement binds with their values, if it can be run. -/
def Statement.bindings? (reading : Reading) (scope : Scope) : Statement → Option (List (String × Value))
  | .bindName name list => (scope list).map fun value => [(name, value)]
  | .bindElements names rest list => (scope.items? list).map (elementValues rest names)
  | .bindFields names subject => do
    let value ← scope subject
    names.mapM fun name => (value.member? name).map (name, ·)
  | .bindElementAt name list index => do
    let items ← scope.items? list
    let position ← scope.number? index
    return [(name, Value.itemAt items position.toNat)]
  | .bindBefore name list index => do
    let items ← scope.items? list
    let position ← scope.number? index
    return [(name, .list (items.take position.toNat))]
  | .bindAfter name list index => do
    let items ← scope.items? list
    let position ← scope.number? index
    return [(name, .list (items.drop (position + 1).toNat))]
  | .search found cursor list anchor => do
    let items ← scope.items? list
    let position ← searchFrom reading (scope.bind found (.number (-1))) cursor anchor 0 items
    return [(found, .number position)]
  | _ => none

/-- The statement belongs to the body of a branch: it is none that takes a list apart. -/
def Statement.isWork : Statement → Bool
  | .returning _ | .declaring _ | .temporary _ _ | .choose _ _ _ | .switch _ _ => true
  | _ => false

/-- How a run ends. -/
inductive Outcome
  /-- a variable that cannot be read, a name declared twice, or an operation without a value -/
  | fault
  /-- all statements have run, and the scope is this -/
  | passed (scope : Scope)
  /-- the statements of a body come next, and the scope is this -/
  | reached (scope : Scope) (work : List Statement)

/-- The end of a run in a block, seen from outside of it: its variables are gone. -/
def Outcome.leaving (outer : Scope) : Outcome → Outcome
  | .passed _ => .passed outer
  | outcome => outcome

mutual

/-- The run of one statement. -/
def Statement.run (reading : Reading) (scope : Scope) : Statement → Outcome
  | .guarded condition block =>
    match condition.holds? reading scope with
    | none => .fault
    | some false => .passed scope
    | some true =>
      if (declaredNames block).Nodup then
        (Statement.runEach reading (scope.hide (declaredNames block)) block).leaving scope
      else .fault
  | statement =>
    match statement.bindings? reading scope with
    | none => .fault
    | some bindings => .passed (scope.bindAll bindings)

/-- The run of statements one after the other, up to the first that is work. -/
def Statement.runEach (reading : Reading) (scope : Scope) : List Statement → Outcome
  | [] => .passed scope
  | statement :: rest =>
    if statement.isWork then .reached scope (statement :: rest)
    else
      match Statement.run reading scope statement with
      | .fault => .fault
      | .passed inner => Statement.runEach reading inner rest
      | .reached inner work => .reached inner work

end

end DerwLang.Ecma
