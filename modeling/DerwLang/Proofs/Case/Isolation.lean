/-
**When the blocks of a switch keep apart.**

No block of a switch ends in a `break`. A block whose body gets to its end without returning goes on into the next one,
and what keeps the blocks apart is only that bodies return. Here whole bodies are run, on any machine that says what terms
and single steps do (`Machine`): a run throws, gets to its end, or returns (`Ending`), and of a switch it is known which
blocks it enters (`Switch.entered`).

* `Expression.Closes`: every case that a body ends in has a `default`, behind all list patterns if there are any;
* `returns_lower`: bodies that close never get to their end;
* `entered_of_closes`: a case on tags or texts whose bodies close enters one block at most;
* `open_body_leaks`: a body that does not close leaks into the branch after it.
-/

import DerwLang.Proofs.Case.Tags
import Mathlib

namespace DerwLang.Ecma

/-! ## Machines -/

/-- What terms, conditions and single steps do in a program, with a state for all that they read and change. What has
no result throws. -/
structure Machine (State : Type) where
  /-- the value that a term returns -/
  value : State → Term → Option Value
  /-- which way a conditional goes -/
  test : State → Term → Option Bool
  holds : State → Condition → Option Bool
  /-- the state after a statement that is a single step -/
  step : State → Statement → Option State
  /-- the value that a switch looks at -/
  looked : State → Subject → Option Value
  equals? : State → Value → Label → Option Bool
  /-- the state at the start of a block -/
  enter : State → List Statement → Option State
  /-- the state behind a block, from those before it and at its end -/
  leave : State → State → State

/-- How the run of statements ends. -/
inductive Ending (State : Type)
  | thrown
  /-- all statements have run, and the state is this -/
  | passed (state : State)
  | returned (value : Value)

/-- The end of a run in a block, seen from outside of it. -/
def Ending.leaving {State : Type} (machine : Machine State) (outer : State) : Ending State → Ending State
  | .passed inner => .passed (machine.leave outer inner)
  | ending => ending

/-- How many blocks a switch skips. -/
def Machine.start? {State : Type} (machine : Machine State) (state : State) (subject : Subject)
    (cases : List SwitchCase) : Option Nat :=
  (machine.looked state subject).bind fun value =>
    Ecma.start? (machine.equals? state value) (cases.map SwitchCase.label)

mutual

/-- The run of one statement. -/
def Statement.execute {State : Type} (machine : Machine State) (state : State) : Statement → Ending State
  | .returning value =>
    match machine.value state value with
    | none => .thrown
    | some result => .returned result
  | .guarded condition block =>
    match machine.holds state condition with
    | none => .thrown
    | some false => .passed state
    | some true =>
      match machine.enter state block with
      | none => .thrown
      | some inner => (Statement.executeEach machine inner block).leaving machine state
  | .choose test whenTrue whenFalse =>
    match machine.test state test with
    | none => .thrown
    | some true =>
      match machine.enter state whenTrue with
      | none => .thrown
      | some inner => (Statement.executeEach machine inner whenTrue).leaving machine state
    | some false =>
      match machine.enter state whenFalse with
      | none => .thrown
      | some inner => (Statement.executeEach machine inner whenFalse).leaving machine state
  | .switch subject cases =>
    match machine.start? state subject cases with
    | none => .thrown
    | some skipped => Statement.executeFrom machine state skipped cases
  | statement =>
    match machine.step state statement with
    | none => .thrown
    | some next => .passed next

/-- The run of statements one after the other, up to the first that returns. -/
def Statement.executeEach {State : Type} (machine : Machine State) (state : State) : List Statement → Ending State
  | [] => .passed state
  | statement :: rest =>
    match Statement.execute machine state statement with
    | .passed next => Statement.executeEach machine next rest
    | ending => ending

/-- The run of the blocks of a switch behind those it skips: each that gets to its end goes on into the next. -/
def Statement.executeFrom {State : Type} (machine : Machine State) (state : State) :
    Nat → List SwitchCase → Ending State
  | _, [] => .passed state
  | skipped + 1, _ :: rest => Statement.executeFrom machine state skipped rest
  | 0, ⟨_, block⟩ :: rest =>
    match machine.enter state block with
    | none => .thrown
    | some inner =>
      match (Statement.executeEach machine inner block).leaving machine state with
      | .passed next => Statement.executeFrom machine next 0 rest
      | ending => ending

end

/-- The run of a block. -/
def executeBlock {State : Type} (machine : Machine State) (state : State) (block : List Statement) : Ending State :=
  match machine.enter state block with
  | none => .thrown
  | some inner => (Statement.executeEach machine inner block).leaving machine state

/-- The blocks that a switch enters behind those it skips. -/
def enteredFrom {State : Type} (machine : Machine State) (state : State) :
    Nat → List SwitchCase → List SwitchCase
  | _, [] => []
  | skipped + 1, _ :: rest => enteredFrom machine state skipped rest
  | 0, choice :: rest =>
    match executeBlock machine state choice.body with
    | .passed next => choice :: enteredFrom machine next 0 rest
    | _ => [choice]

/-- The blocks that a switch enters when it runs. -/
def Switch.entered {State : Type} (machine : Machine State) (state : State) (subject : Subject)
    (cases : List SwitchCase) : List SwitchCase :=
  match machine.start? state subject cases with
  | none => []
  | some skipped => enteredFrom machine state skipped cases

/-! ## Bodies that return -/

/-- Statements whose run never gets to their end. -/
def Returns (body : List Statement) : Prop :=
  ∀ ⦃State : Type⦄ (machine : Machine State) (state after : State),
    Statement.executeEach machine state body ≠ .passed after

section Returning

variable {State : Type} {machine : Machine State} {state : State}

theorem executeEach_append (first second : List Statement) :
    Statement.executeEach machine state (first ++ second) =
      match Statement.executeEach machine state first with
      | .passed next => Statement.executeEach machine next second
      | ending => ending := by
  induction first generalizing state with
  | nil => simp [Statement.executeEach]
  | cons statement rest step =>
    rw [List.cons_append, Statement.executeEach, Statement.executeEach]
    cases Statement.execute machine state statement with
    | passed next => exact step
    | thrown | returned => rfl

/-- What stands in front of statements that return does not matter. -/
theorem Returns.after {second : List Statement} (returns : Returns second) (first : List Statement) :
    Returns (first ++ second) := by
  intro State machine state after
  rw [executeEach_append]
  cases Statement.executeEach machine state first with
  | passed next => exact returns machine next after
  | thrown | returned => simp

/-- The block of statements that return is never left at its end. -/
theorem Returns.block {body : List Statement} (returns : Returns body) (after : State) :
    executeBlock machine state body ≠ .passed after := by
  rw [executeBlock]
  cases machine.enter state body with
  | none => simp
  | some inner =>
    have ended := returns machine inner
    cases ending : Statement.executeEach machine inner body with
    | passed next => exact absurd ending (ended next)
    | thrown | returned => simp [ending, Ending.leaving]

/-- A statement that is never got past returns. -/
theorem returns_single {statement : Statement}
    (stops : ∀ ⦃State : Type⦄ (machine : Machine State) (state after : State),
      Statement.execute machine state statement ≠ .passed after) : Returns [statement] := by
  intro State machine state after
  rw [Statement.executeEach]
  cases ending : Statement.execute machine state statement with
  | passed next => exact absurd ending (stops machine state next)
  | thrown | returned => simp

theorem returns_returning (value : Term) : Returns [.returning value] := by
  refine returns_single fun State machine state after => ?_
  rw [Statement.execute]
  cases machine.value state value <;> simp

/-- A conditional runs one of its two blocks. -/
theorem execute_choose (test : Term) (whenTrue whenFalse : List Statement) :
    Statement.execute machine state (.choose test whenTrue whenFalse) =
      match machine.test state test with
      | none => .thrown
      | some way => executeBlock machine state (if way then whenTrue else whenFalse) := by
  rw [Statement.execute]
  cases machine.test state test with
  | none => rfl
  | some way => cases way <;> rfl

/-- A conditional returns when both of its blocks do. -/
theorem returns_choose (test : Term) {whenTrue whenFalse : List Statement} (yes : Returns whenTrue)
    (no : Returns whenFalse) : Returns [.choose test whenTrue whenFalse] := by
  refine returns_single fun State machine state after => ?_
  rw [execute_choose]
  cases machine.test state test with
  | none => simp
  | some way =>
    cases way with
    | true => exact yes.block after
    | false => exact no.block after

/-- A switch returns when it gets into blocks one of which returns. -/
theorem executeFrom_ne_passed {cases : List SwitchCase} {skipped : Nat}
    (returns : ∃ choice ∈ cases.drop skipped, Returns choice.body) (after : State) :
    Statement.executeFrom machine state skipped cases ≠ .passed after := by
  induction cases generalizing skipped state with
  | nil => simp at returns
  | cons choice rest step =>
    cases skipped with
    | succ skipped =>
      rw [Statement.executeFrom]
      exact step returns
    | zero =>
      obtain ⟨label, block⟩ := choice
      have same : Statement.executeFrom machine state 0 (⟨label, block⟩ :: rest) =
          match executeBlock machine state block with
          | .passed next => Statement.executeFrom machine next 0 rest
          | ending => ending := by
        rw [Statement.executeFrom, executeBlock]
        cases machine.enter state block <;> rfl
      rw [same]
      obtain ⟨found, member, returns⟩ := returns
      cases ending : executeBlock machine state block with
      | thrown | returned => simp
      | passed next =>
        rcases List.mem_cons.mp member with rfl | later
        · exact absurd ending (returns.block next)
        · exact step ⟨found, later, returns⟩

/-- **Where every block returns, one is entered at most.** -/
theorem length_enteredFrom {cases : List SwitchCase} (returns : ∀ choice ∈ cases, Returns choice.body)
    (skipped : Nat) : (enteredFrom machine state skipped cases).length ≤ 1 := by
  induction cases generalizing skipped with
  | nil => simp [enteredFrom]
  | cons choice rest step =>
    cases skipped with
    | succ skipped =>
      rw [enteredFrom]
      exact step (fun other member => returns other (List.mem_cons_of_mem _ member)) skipped
    | zero =>
      rw [enteredFrom]
      cases ending : executeBlock machine state choice.body with
      | passed next => exact absurd ending ((returns choice List.mem_cons_self).block next)
      | thrown | returned => exact Nat.le_refl 1

/-- A switch with a `default` gets into a block. -/
theorem start?_lt {equals? : Label → Option Bool} {labels : List Label} {skipped : Nat}
    (starts : start? equals? labels = some skipped) (some_ : .otherwise ∈ labels) : skipped < labels.length := by
  rw [start?, Option.map_eq_some_iff] at starts
  obtain ⟨first, -, rfl⟩ := starts
  split
  · assumption
  · exact List.findIdx_lt_length_of_exists ⟨.otherwise, some_, by simp⟩

/-- The block of a pattern that is no list pattern runs the body of its branch. -/
theorem Returns.switchCase {body : List Statement} (returns : Returns body) (name : String) {pattern : Pattern}
    (unlisted : isListPattern pattern = false) : Returns (switchCase name pattern body).body := by
  cases pattern with
  | tag shape => exact returns.after _
  | string | formatString | otherwise => exact returns
  | emptyList | list => simp [isListPattern] at unlisted

end Returning

/-! ## Bodies that close -/

/-- Some block is always run to the end of its body: there is a `default`, and it stands behind all list patterns if there
are any. -/
def Total (patterns : List Pattern) : Prop :=
  patterns.getLast? = some .otherwise ∨
    .otherwise ∈ patterns ∧ ∀ pattern ∈ patterns, isListPattern pattern = false

section Total

variable {name : String} {branches : List (Pattern × List Statement)}

/-- A total case has a `default`. -/
theorem Total.labelled (total : Total (branches.map Prod.fst)) :
    .otherwise ∈ (switchCases name branches).map SwitchCase.label := by
  have some_ : Pattern.otherwise ∈ branches.map Prod.fst := by
    rcases total with last | ⟨some_, -⟩
    · exact List.mem_of_getLast? last
    · exact some_
  obtain ⟨branch, member, shaped⟩ := List.mem_map.mp some_
  refine List.mem_map.mpr ⟨switchCase name branch.1 branch.2, List.mem_map_of_mem member, ?_⟩
  rw [shaped]
  rfl

/-- Wherever a total case starts, it gets to a block that returns. -/
theorem Total.returning (total : Total (branches.map Prod.fst)) (returns : ∀ branch ∈ branches, Returns branch.2)
    {skipped : Nat} (inside : skipped < (switchCases name branches).length) :
    ∃ choice ∈ (switchCases name branches).drop skipped, Returns choice.body := by
  rcases total with last | ⟨-, unlisted⟩
  · rw [List.getLast?_map, Option.map_eq_some_iff] at last
    obtain ⟨branch, last, shaped⟩ := last
    have final : ((switchCases name branches).drop skipped).getLast? = some (switchCase name branch.1 branch.2) := by
      rw [List.getLast?_drop, if_neg (Nat.not_le.mpr inside), switchCases, List.getLast?_map, last]
      rfl
    refine ⟨_, List.mem_of_getLast? final, ?_⟩
    rw [shaped]
    exact returns branch (List.mem_of_getLast? last)
  · obtain ⟨chosen, among, same⟩ := List.mem_map.mp (List.getElem_mem inside)
    refine ⟨(switchCases name branches)[skipped], ?_, ?_⟩
    · rw [List.drop_eq_getElem_cons inside]
      exact List.mem_cons_self
    · rw [← same]
      exact (returns chosen among).switchCase name (unlisted chosen.1 (List.mem_map_of_mem among))

/-- **A total case whose bodies return returns.** -/
theorem returns_caseStatements (value : Term) (total : Total (branches.map Prod.fst))
    (returns : ∀ branch ∈ branches, Returns branch.2) : Returns (caseStatements name value branches) := by
  have switch : Returns [.switch (subjectOf name (branches.map Prod.fst)) (switchCases name branches)] := by
    refine returns_single fun State machine state after => ?_
    rw [Statement.execute]
    cases starts : machine.start? state (subjectOf name (branches.map Prod.fst)) (switchCases name branches) with
    | none => simp
    | some skipped =>
      obtain ⟨looked, -, first⟩ := Option.bind_eq_some_iff.mp starts
      have inside := start?_lt first total.labelled
      exact executeFrom_ne_passed (total.returning returns (by simpa using inside)) after
  exact switch.after [.temporary name value]

end Total

mutual

/-- Every case that the expression ends in is total. -/
def Closes : Expression → Prop
  | .conditional _ ⟨_, yes⟩ ⟨_, no⟩ => Closes yes ∧ Closes no
  | .caseOf _ branches => Total (branches.map Branch.pattern) ∧ CloseEach branches
  | _ => True

/-- Every case that one of the branches ends in is total. -/
def CloseEach : List Branch → Prop
  | [] => True
  | ⟨_, ⟨_, result⟩⟩ :: rest => Closes result ∧ CloseEach rest

end

/-- The patterns of lowered branches are those of the branches. -/
theorem lowerBranches_patterns (dialect : Dialect) (branches : List Branch) :
    Yields (lowerBranches dialect branches) fun lowered => lowered.map Prod.fst = branches.map Branch.pattern := by
  induction branches with
  | nil =>
    rw [lowerBranches]
    exact .pure rfl
  | cons branch rest step =>
    obtain ⟨pattern, locals, result⟩ := branch
    rw [lowerBranches]
    refine .after _ fun _ => .after _ fun _ => step.bind fun others patterns => .pure ?_
    rw [List.map_cons, List.map_cons, patterns]

mutual

/-- **Bodies that close return.** -/
theorem returns_lower (dialect : Dialect) : ∀ expression : Expression, Closes expression →
    Yields (lower dialect true expression) fun lowered => Returns lowered.toStatements
  | .conditional _ ⟨_, yes⟩ ⟨_, no⟩, closes => by
    rw [lower]
    refine .after _ fun _ => ?_
    rw [Bool.true_or, Bool.true_or, if_pos rfl]
    refine .after _ fun _ => (returns_lower dialect yes closes.1).bind fun _ yes => .after _ fun _ =>
      (returns_lower dialect no closes.2).bind fun _ no => .pure ?_
    exact returns_choose _ (yes.after _) (no.after _)
  | .caseOf _ branches, closes => by
    rw [lower]
    refine .after _ fun _ => .after _ fun _ => ?_
    intro names
    have patterns := lowerBranches_patterns dialect branches names
    have returns := returns_lowerBranches dialect branches closes.2 names
    exact returns_caseStatements _ (patterns ▸ closes.1) returns
  | .value _, _ | .string _, _ | .formatString _, _ | .range _ _, _ => by
    rw [lower]
    exact .pure (returns_returning _)
  | .list _, _ | .call _ _, _ | .reference _ _, _ => by
    rw [lower]
    exact .after _ fun _ => .pure (returns_returning _)
  | .record ⟨_, _⟩, _ | .construct _ ⟨_, _⟩, _ | .lambda ⟨_, _⟩, _ => by
    rw [lower]
    exact .after _ fun _ => .pure (returns_returning _)
  | .lambdaCall ⟨_, _⟩ _, _ => by
    rw [lower]
    exact .after _ fun _ => .after _ fun _ => .pure (returns_returning _)
  | .binary operator _ _, _ => by
    by_cases pipe : operator = .pipeInto
    · subst pipe
      rw [lower]
      exact .after _ fun _ => .after _ fun _ => .pure (returns_returning _)
    · rw [lower]
      · refine .after _ fun _ => .after _ fun _ => ?_
        split <;> exact .pure (returns_returning _)
      · exact pipe

/-- The bodies of branches that close return. -/
theorem returns_lowerBranches (dialect : Dialect) : ∀ branches : List Branch, CloseEach branches →
    Yields (lowerBranches dialect branches) fun lowered => ∀ branch ∈ lowered, Returns branch.2
  | [], _ => by
    rw [lowerBranches]
    exact .pure (by simp)
  | ⟨_, ⟨_, result⟩⟩ :: rest, closes => by
    rw [lowerBranches]
    refine .after _ fun _ => (returns_lower dialect result closes.1).bind fun _ returns =>
      (returns_lowerBranches dialect rest closes.2).bind fun _ others => .pure ?_
    exact List.forall_mem_cons.mpr ⟨returns.after _, others⟩

end

/-! ## The whole case -/

/-- **A case on tags or texts enters one block at most**, where its bodies close: on every machine, and whatever names are
given so far. -/
theorem entered_of_closes (dialect : Dialect) (atEnd : Bool) (predicate : Expression) {branches : List Branch}
    (unlisted : ∀ branch ∈ branches, isListPattern branch.pattern = false) (closes : CloseEach branches)
    (names : TempNames) :
    ∃ name value subject cases,
      (lower dialect atEnd (.caseOf predicate branches) names).1 =
        .statements [.temporary name value, .switch subject cases] ∧
      ∀ {State : Type} (machine : Machine State) (state : State),
        (Switch.entered machine state subject cases).length ≤ 1 := by
  rw [lower]
  refine ⟨_, _, _, _, rfl, fun machine state => ?_⟩
  rw [Switch.entered]
  cases machine.start? state _ _ with
  | none => exact Nat.zero_le 1
  | some skipped =>
    refine length_enteredFrom (fun choice member => ?_) skipped
    obtain ⟨branch, among, rfl⟩ := List.mem_map.mp member
    have returns := returns_lowerBranches dialect branches closes _ branch among
    have shape := List.mem_map_of_mem (f := Prod.fst) among
    rw [lowerBranches_patterns dialect branches _] at shape
    obtain ⟨source, from_, same⟩ := List.mem_map.mp shape
    exact returns.switchCase _ (same ▸ unlisted source from_)

/-- Two branches, of which the first holds a conditional and a case on a list with a `default`. -/
def closingBranches : List Branch :=
  [⟨.tag ⟨"A", []⟩, ⟨[], .conditional (.value "y")
      ⟨[], .caseOf (.value "ys")
        [⟨.emptyList, ⟨[], .value "one"⟩⟩, ⟨.list [.name "z", .name "zs"], ⟨[], .value "z"⟩⟩,
          ⟨.otherwise, ⟨[], .value "two"⟩⟩]⟩
      ⟨[], .value "one"⟩⟩⟩,
    ⟨.tag ⟨"C", []⟩, ⟨[], .value "two"⟩⟩]

/-- The two branches keep apart, though neither is a `default`. -/
theorem entered_of_closes_nested :
    ∃ name value subject cases,
      (lower .javaScript true (.caseOf (.value "x") closingBranches) {}).1 =
        .statements [.temporary name value, .switch subject cases] ∧
      ∀ {State : Type} (machine : Machine State) (state : State),
        (Switch.entered machine state subject cases).length ≤ 1 := by
  refine entered_of_closes .javaScript true (.value "x") ?_ ?_ {}
  · simp [closingBranches, isListPattern]
  · simp [closingBranches, CloseEach, Closes, Total]

/-! ## Bodies that do not close -/

/-- The machine of scopes: a name stands for its value, and a block hides all names that it declares. -/
def scopeMachine (reading : Reading) : Machine Scope where
  value scope := nameValue? scope
  test scope term := (nameValue? scope term).map (·.isText "true")
  holds := Condition.holds? reading
  step scope
    | .temporary name value => (nameValue? scope value).map fun value => scope.bind name value
    | statement => (statement.bindings? reading scope).map scope.bindAll
  looked scope subject := subject.value? scope
  equals? := Label.equals? reading
  enter scope block :=
    let names := block.flatMap fun
      | .temporary name _ => [name]
      | statement => statement.declares
    if names.Nodup then some (scope.hide names) else none
  leave outer _ := outer
where
  /-- The value of a name. -/
  nameValue? (scope : Scope) : Term → Option Value
    | .verbatim name => scope name
    | _ => none

/-- A case whose first branch holds a case without `default`. -/
def leakingCase : Expression :=
  .caseOf (.value "x")
    [⟨.tag ⟨"A", []⟩, ⟨[], .caseOf (.value "y") [⟨.tag ⟨"B", []⟩, ⟨[], .value "one"⟩⟩]⟩⟩,
      ⟨.tag ⟨"C", []⟩, ⟨[], .value "two"⟩⟩]

/-- A value `x` with the tag `A`, a value `y` that has neither of the tags `B` and `C`, and a text. -/
def leakingScope : Scope :=
  fun name =>
    if name = "x" then some (taggedValue "A" "" .undefined)
    else if name = "y" then some (taggedValue "D" "" .undefined)
    else if name = "two" then some (.text "2")
    else none

/-- **A body that does not close leaks.** The value has the tag of the first branch. In that branch no case matches, the
switch enters the block of the second branch, and what the second branch gives is returned. -/
theorem open_body_leaks :
    parseExpression
        "case x of\n    A ->\n        case y of\n            B ->\n                one\n    C ->\n        two" =
      .ok leakingCase ∧
    ∃ name value subject cases,
      (lower .javaScript true leakingCase {}).1 = .statements [.temporary name value, .switch subject cases] ∧
      (Switch.entered (scopeMachine plainReading)
        (leakingScope.bind name (taggedValue "A" "" .undefined)) subject cases).length = 2 ∧
      Statement.executeEach (scopeMachine plainReading) leakingScope
        [.temporary name value, .switch subject cases] = .returned (.text "2") := by
  refine ⟨by cbv, _, _, _, _, rfl, rfl, rfl⟩

end DerwLang.Ecma
