/-
**The first list pattern that matches wins.**

A case on a list switches on its length. The label of a list pattern is that very length and always equal to it, and the
label of `[]` is zero; a block whose pattern does not match is fallen through. For branches in any order, with `default`
in the last place if it is there (`ListCase`):

* `endsIn_blocks`: from any branch on, the blocks do what the branches ask for;
* `endsIn_start`: the blocks that the switch skips belong to branches that do not match;
* `run_listSwitch`: the switch reaches the body of the first branch that matches.

The names in a pattern have to be fit for the statements that take the list apart (`Fit`).
-/

import DerwLang.Grammar.Module
import DerwLang.Proofs.Case.Switch

namespace DerwLang.Ecma

/-- All patterns are list patterns, but for a `default` in the last place. -/
def ListCase : List Pattern → Prop
  | [] => True
  | pattern :: rest => isListPattern pattern = true ∧ ListCase rest ∨ pattern = .otherwise ∧ rest = []

/-- **What the names of a pattern may be**, given the name of the list that is taken apart: they are distinct, none is
one that lowering makes, no template reads them, and none that is bound beside the list is that of the list itself. -/
structure Fit (reading : Reading) (list : String) (parts : List ListPart) : Prop where
  distinct : (patternNames parts).Nodup
  unmade : ∀ name ∈ patternNames parts, ¬ IsMade name
  steady : Steady reading (patternNames parts) parts
  apart : list ∉ besideList parts

/-- A list pattern as the grammar gives it, with names that are fit. -/
def FitPattern (reading : Reading) (list : String) : Pattern → Prop
  | .list parts => (2 ≤ parts.length ∧ ClosedAtEnd parts) ∧ Fit reading list parts
  | _ => True

/-! ## The labels of cases -/

/-- A label that is not equal to the value is skipped. -/
theorem start?_skip {equals? : Label → Option Bool} {label : Label} (unequal : equals? label = some false)
    (labelled : label ≠ .otherwise) (rest : List Label) :
    start? equals? (label :: rest) = (start? equals? rest).map (· + 1) := by
  have other : (label == Label.otherwise) = false := beq_eq_false_iff_ne.mpr labelled
  rw [start?, start?, firstEqual?, unequal]
  cases firstEqual? equals? rest with
  | none => rfl
  | some first =>
    simp only [Option.map_some, List.length_cons, Nat.add_lt_add_iff_right, List.findIdx_cons, other]
    split <;> rfl

/-- Nothing is skipped when the first label is equal to the value. -/
theorem start?_equal {equals? : Label → Option Bool} {label : Label} (equal : equals? label = some true)
    (rest : List Label) : start? equals? (label :: rest) = some 0 := by
  simp [start?, firstEqual?, equal]

/-- A `default` that stands alone is gone on from. -/
theorem start?_otherwise {equals? : Label → Option Bool} (unequal : equals? .otherwise = some false) :
    start? equals? [.otherwise] = some 0 := by
  simp [start?, firstEqual?, unequal]

section Lists

variable {reading : Reading} {scope : Scope} {list : String} {items : List Value}

/-! ## Blocks -/

/-- **The block of one branch does what its pattern asks for.** -/
theorem ends_listBlock (held : scope list = some (.list items)) (notMade : ¬ IsMade list)
    (answers : ∀ item ∈ items, item.Answers) {pattern : Pattern}
    (listed : isListPattern pattern = true ∨ pattern = .otherwise) (fit : FitPattern reading list pattern)
    {body : List Statement} (isBody : IsBody body) :
    Ends scope body (runBlock reading scope (switchCase list pattern body).body)
      (matchPattern reading scope pattern (.list items)) := by
  cases pattern with
  | tag => simp [isListPattern] at listed
  | string => simp [isListPattern] at listed
  | formatString => simp [isListPattern] at listed
  | otherwise =>
    rw [switchCase, runBlock_body isBody]
    exact ⟨scope, rfl, fun _ _ => rfl⟩
  | emptyList =>
    have condition : (Condition.lengthIs list 0).holds? reading scope = some items.isEmpty := by
      cases items <;> simp [Condition.holds?, Scope.items?, held, Value.items?]
    rw [switchCase, runBlock_guarded, matchPattern]
    cases empty : items.isEmpty with
    | false =>
      rw [empty] at condition
      rw [runEach_guarded_false condition]
      exact ⟨scope, rfl⟩
    | true =>
      rw [empty] at condition
      have declared : declaredNames body = [] := declaredNames_body isBody.1
      rw [runEach_guarded_true condition (by rw [declared]; exact List.nodup_nil), declared, Scope.hide_nil,
        runEach_body isBody.1 isBody.2]
      exact ⟨scope, rfl, fun _ _ => rfl⟩
  | list parts =>
    obtain ⟨⟨several, closed⟩, fit⟩ := fit
    have proper : Proper reading (patternNames parts) parts :=
      ⟨closed, fit.distinct, fun _ member => member, fit.unmade, fit.steady⟩
    have ends := ends_listPattern several proper notMade held answers fit.apart isBody.1 isBody.2
    rw [switchCase, listPattern_eq, runBlock_guarded, ← listPattern_eq, matchPattern]
    simpa using ends.leaving (fun bindings after _ (extended : Extended scope bindings after) =>
      show Extended scope ([] ++ bindings) after from extended) scope

/-- **From any branch on, the blocks do what the branches ask for.** -/
theorem endsIn_blocks (held : scope list = some (.list items)) (notMade : ¬ IsMade list)
    (answers : ∀ item ∈ items, item.Answers) {branches : List (Pattern × List Statement)}
    (lists : ListCase (branches.map Prod.fst)) (fit : ∀ branch ∈ branches, FitPattern reading list branch.1)
    (bodies : ∀ branch ∈ branches, IsBody branch.2) :
    EndsIn scope (runBlocks reading scope (switchCases list branches))
      (firstMatch reading scope (.list items) branches) := by
  induction branches with
  | nil => exact ⟨scope, rfl⟩
  | cons branch rest step =>
    have block := fun listed => ends_listBlock held notMade answers listed
      (fit branch List.mem_cons_self) (bodies branch List.mem_cons_self)
    refine endsIn_cons (block (lists.imp And.left And.left)) (step ?_ ?_ ?_)
    · rcases lists with ⟨-, lists⟩ | ⟨-, last⟩
      · exact lists
      · rw [last]
        trivial
    · exact fun other member => fit other (List.mem_cons_of_mem _ member)
    · exact fun other member => bodies other (List.mem_cons_of_mem _ member)

/-! ## Where the switch starts -/

/-- **The blocks that are skipped belong to branches that do not match.** Only the labels of `[]` are ever skipped, for a
list that has items. -/
theorem endsIn_start (held : scope list = some (.list items)) (notMade : ¬ IsMade list)
    (answers : ∀ item ∈ items, item.Answers) {branches : List (Pattern × List Statement)}
    (lists : ListCase (branches.map Prod.fst)) (fit : ∀ branch ∈ branches, FitPattern reading list branch.1)
    (bodies : ∀ branch ∈ branches, IsBody branch.2) {value : Value}
    (sized : (branches.map Prod.fst).any isListPattern = true → value = .number items.length) :
    ∃ skipped, start? (Label.equals? reading scope value) (branchLabels list branches) = some skipped ∧
      EndsIn scope (runBlocks reading scope ((switchCases list branches).drop skipped))
        (firstMatch reading scope (.list items) branches) := by
  induction branches with
  | nil => exact ⟨0, rfl, scope, rfl⟩
  | cons branch rest step =>
    have whole := endsIn_blocks held notMade answers lists fit bodies
    obtain ⟨pattern, body⟩ := branch
    rcases lists with ⟨listed, lists⟩ | ⟨rfl, last⟩
    · obtain rfl : value = .number items.length := sized (by simp [listed])
      cases pattern with
      | list parts =>
        refine ⟨0, start?_equal ?_ _, whole⟩
        simp [switchCase, Label.equals?, Scope.items?, held, Value.items?, Value.number?]
      | emptyList =>
        cases items with
        | nil => exact ⟨0, start?_equal rfl _, whole⟩
        | cons item more =>
          have skip : Label.equals? reading scope (.number (item :: more).length) .zero = some false := by
            simp [Label.equals?, Value.number?]
            omega
          obtain ⟨skipped, starts, ends⟩ := step lists
            (fun other member => fit other (List.mem_cons_of_mem _ member))
            (fun other member => bodies other (List.mem_cons_of_mem _ member)) (fun _ => rfl)
          refine ⟨skipped + 1, ?_, ?_⟩
          · rw [branchLabels, List.map_cons, switchCase, start?_skip skip (by simp), ← branchLabels, starts]
            rfl
          · simpa [firstMatch, matchPattern, switchCases] using ends
      | tag | string | formatString | otherwise => simp [isListPattern] at listed
    · have none_ : rest = [] := List.map_eq_nil_iff.mp last
      subst none_
      exact ⟨0, start?_otherwise rfl, whole⟩

/-- A list has a value that its switch looks at. -/
theorem subject_of_lists (held : scope list = some (.list items)) {patterns : List Pattern}
    (lists : ListCase patterns) :
    ∃ value, (subjectOf list patterns).value? scope = some value ∧
      (patterns.any isListPattern = true → value = .number items.length) := by
  have plain : patterns.any isTextPattern = false := by
    induction patterns with
    | nil => rfl
    | cons pattern rest step =>
      rcases lists with ⟨listed, lists⟩ | ⟨rfl, rfl⟩
      · rw [List.any_cons, step lists]
        cases pattern <;> simp_all [isListPattern, isTextPattern]
      · rfl
  rw [subjectOf, plain]
  by_cases listed : patterns.any isListPattern = true
  · exact ⟨.number items.length, by simp [listed, Subject.value?, Scope.items?, held, Value.items?], fun _ => rfl⟩
  · exact ⟨.undefined, by simp [listed, Subject.value?, held, Value.member?], fun some_ => absurd some_ listed⟩

/-- There is at most one `default`. -/
theorem count_otherwise {branches : List (Pattern × List Statement)} (lists : ListCase (branches.map Prod.fst)) :
    (branchLabels list branches).count .otherwise ≤ 1 := by
  induction branches with
  | nil => simp [branchLabels]
  | cons branch rest step =>
    obtain ⟨pattern, body⟩ := branch
    rcases lists with ⟨listed, lists⟩ | ⟨rfl, last⟩
    · cases pattern with
      | list | emptyList => simpa [branchLabels, switchCase] using step lists
      | tag | string | formatString | otherwise => simp [isListPattern] at listed
    · have none_ : rest = [] := List.map_eq_nil_iff.mp last
      simp [branchLabels, none_, switchCase]

end Lists

/-! ## The whole case -/

/-- The window of a text that stands alone. -/
def textWindow (text : String) : Window :=
  ⟨1, Token.significant (tokenize text)⟩

/-- Four branches: `[]`, a list that starts with the text `b`, any other list with an item, and the rest. -/
def fourBranches : List (Pattern × List Statement) :=
  [(.emptyList, [.returning (.verbatim "none")]),
    (.list [.string "b", .name "others"], [.returning (.verbatim "others")]),
    (.list [.name "first", .name "rest"], [.returning (.verbatim "first")]),
    (.otherwise, [.returning (.verbatim "other")])]

/-- A text whose templates have the text of one variable. -/
def holeReading (name : String) : Reading :=
  ⟨id, fun scope _ => match scope name with
    | some (.text body) => body
    | _ => ""⟩

/-- The switch of a case with the one list pattern, on a list that is held as `_res3835`. -/
def singleRun (reading : Reading) (parts : List ListPart) (items : List Value) : Outcome :=
  Switch.run reading (listScope "_res3835" items) (subjectOf "_res3835" [.list parts])
    (switchCases "_res3835" [(.list parts, [.returning (.verbatim "1")])])

/-- What the switch of a case with the one list pattern ought to end in. -/
def singleMatch (reading : Reading) (parts : List ListPart) (items : List Value) :
    Option (List (String × Value) × List Statement) :=
  firstMatch reading (listScope "_res3835" items) (.list items) [(.list parts, [.returning (.verbatim "1")])]

end DerwLang.Ecma
