/-
**What a switch does when it runs.**

A switch compares its value with its labels in order and goes on from the first that is equal to it, or from `default`,
wherever that stands, when none is (`start?`). From there on it runs one block after the other, until one of them reaches
the body of a branch, which is taken to return (`Switch.run`).

What the branches of a case ought to do is said next to it: a pattern matches a value with some bindings
(`matchPattern`), and the first branch in source order that matches is the one that counts (`firstMatch`).
-/

import DerwLang.Proofs.ListPattern.Correct

namespace DerwLang.Ecma

/-! ## Labels -/

/-- The value that a switch compares with its labels, if there is one. -/
def Subject.value? (scope : Scope) : Subject → Option Value
  | .value name => scope name
  | .lengthOf name => (scope.items? name).map fun items => .number items.length
  | .kindOf name => (scope name).bind (·.member? "kind")

/-- The label is equal to the value, if it can be read at all. `default` is equal to nothing. -/
def Label.equals? (reading : Reading) (scope : Scope) (value : Value) : Label → Option Bool
  | .quoted text => some (value.isText (reading.quoted text))
  | .template text => some (value.isText (reading.template scope text))
  | .zero => some (value.number? == some 0)
  | .lengthOf name => (scope.items? name).map fun items => value.number? == some (items.length : Int)
  | .otherwise => some false

/-- How many labels come before the first that is equal to the value: all when none is, and it is not known when one of
them cannot be read. -/
def firstEqual? (equals? : Label → Option Bool) : List Label → Option Nat
  | [] => some 0
  | label :: rest =>
    match equals? label with
    | none => none
    | some true => some 0
    | some false => (firstEqual? equals? rest).map (· + 1)

/-- How many blocks a switch skips. -/
def start? (equals? : Label → Option Bool) (labels : List Label) : Option Nat :=
  (firstEqual? equals? labels).map fun first =>
    if first < labels.length then first else labels.findIdx (· == .otherwise)

/-! ## Blocks -/

/-- The run of a block in a scope of its own. -/
def runBlock (reading : Reading) (scope : Scope) (block : List Statement) : Outcome :=
  if (declaredNames block).Nodup then
    (Statement.runEach reading (scope.hide (declaredNames block)) block).leaving scope
  else .fault

/-- The run of blocks one after the other, up to the first that reaches a body. -/
def runBlocks (reading : Reading) (scope : Scope) : List SwitchCase → Outcome
  | [] => .passed scope
  | choice :: rest =>
    match runBlock reading scope choice.body with
    | .passed _ => runBlocks reading scope rest
    | outcome => outcome

/-- The run of a switch. No program has a switch with two `default` labels. -/
def Switch.run (reading : Reading) (scope : Scope) (subject : Subject) (cases : List SwitchCase) : Outcome :=
  let labels := cases.map SwitchCase.label
  if 1 < labels.count .otherwise then .fault
  else
    match (subject.value? scope).bind fun value => start? (Label.equals? reading scope value) labels with
    | none => .fault
    | some skipped => runBlocks reading scope (cases.drop skipped)

/-! ## Branches -/

/-- The variables that a pattern binds when it matches a value. -/
def matchPattern (reading : Reading) (scope : Scope) : Pattern → Value → Option (List (String × Value))
  | .tag pattern, value =>
    if value.hasTag pattern.tag then some (partValues value (.tag pattern)) else none
  | .string text, value => if value.isText (reading.quoted text) then some [] else none
  | .formatString text, value => if value.isText (reading.template scope text) then some [] else none
  | .emptyList, .list items => if items.isEmpty then some [] else none
  | .list parts, .list items => matchParts reading scope parts items
  | .otherwise, _ => some []
  | _, _ => none

/-- The first branch in source order that matches the value: what its pattern binds, and its body. -/
def firstMatch (reading : Reading) (scope : Scope) (value : Value) :
    List (Pattern × List Statement) → Option (List (String × Value) × List Statement)
  | [] => none
  | branch :: rest =>
    match matchPattern reading scope branch.1 value with
    | some bindings => some (bindings, branch.2)
    | none => firstMatch reading scope value rest

/-- The run reaches the body of the branch with its bindings, and no body when there is no branch. -/
def EndsIn (scope : Scope) (outcome : Outcome) : Option (List (String × Value) × List Statement) → Prop
  | none => ∃ after, outcome = .passed after
  | some (bindings, body) => ∃ after, outcome = .reached after body ∧ Extended scope bindings after

section Running

variable {reading : Reading} {scope : Scope}

/-- A body is run in the scope around its block, when nothing stands before it. -/
theorem runBlock_body {body : List Statement} (isBody : IsBody body) :
    runBlock reading scope body = .reached scope body := by
  have declared : declaredNames body = [] := declaredNames_body isBody.1
  rw [runBlock, declared, if_pos List.nodup_nil, Scope.hide_nil, runEach_body isBody.1 isBody.2]
  rfl

/-- A guard stands alone in its block and declares nothing there. -/
theorem runBlock_guarded (condition : Condition) (block : List Statement) :
    runBlock reading scope [.guarded condition block] =
      (Statement.runEach reading scope [.guarded condition block]).leaving scope := by
  have declared : declaredNames [.guarded condition block] = [] := rfl
  rw [runBlock, declared, if_pos List.nodup_nil, Scope.hide_nil]

/-- The cases of the switch for branches. -/
def switchCases (name : String) (branches : List (Pattern × List Statement)) : List SwitchCase :=
  branches.map fun branch => switchCase name branch.1 branch.2

/-- The labels of the switch for branches. -/
def branchLabels (name : String) (branches : List (Pattern × List Statement)) : List Label :=
  branches.map fun branch => (switchCase name branch.1 branch.2).label

/-- A switch runs the blocks that it does not skip. -/
theorem run_of_start {name : String} {branches : List (Pattern × List Statement)} {subject : Subject} {value : Value}
    {skipped : Nat} (single : (branchLabels name branches).count .otherwise ≤ 1)
    (looked : subject.value? scope = some value)
    (starts : start? (Label.equals? reading scope value) (branchLabels name branches) = some skipped) :
    Switch.run reading scope subject (switchCases name branches) =
      runBlocks reading scope ((switchCases name branches).drop skipped) := by
  have labels : (switchCases name branches).map SwitchCase.label = branchLabels name branches := by
    rw [switchCases, branchLabels, List.map_map]
    rfl
  rw [Switch.run, labels, if_neg (Nat.not_lt.mpr single), looked, Option.bind_some, starts]

/-- A branch that matches is the first to match when its block comes first. -/
theorem endsIn_of_reached {branch : Pattern × List Statement} {rest : List (Pattern × List Statement)} {value : Value}
    {bindings : List (String × Value)} {outcome : Outcome}
    (matched : matchPattern reading scope branch.1 value = some bindings)
    (ends : Ends scope branch.2 outcome (some bindings)) :
    EndsIn scope outcome (firstMatch reading scope value (branch :: rest)) := by
  rw [firstMatch, matched]
  exact ends

/-- **Falling through.** A block does what its pattern asks for, and those after it do the rest. -/
theorem endsIn_cons {branch : Pattern × List Statement} {rest : List (Pattern × List Statement)} {value : Value}
    {choice : SwitchCase} {others : List SwitchCase}
    (block : Ends scope branch.2 (runBlock reading scope choice.body)
      (matchPattern reading scope branch.1 value))
    (later : EndsIn scope (runBlocks reading scope others) (firstMatch reading scope value rest)) :
    EndsIn scope (runBlocks reading scope (choice :: others))
      (firstMatch reading scope value (branch :: rest)) := by
  cases matched : matchPattern reading scope branch.1 value with
  | none =>
    rw [matched] at block
    obtain ⟨after, passed⟩ := block
    rw [firstMatch, matched, runBlocks, passed]
    exact later
  | some bindings =>
    rw [matched] at block
    obtain ⟨after, reached, extended⟩ := block
    refine endsIn_of_reached matched ⟨after, ?_, extended⟩
    rw [runBlocks, reached]

end Running

end DerwLang.Ecma
