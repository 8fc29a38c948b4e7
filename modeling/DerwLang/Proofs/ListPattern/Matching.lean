/-
**What a list pattern matches.**

The parts of a pattern are matched from left to right. A name in front, a tag and a text take one element each, which
has to fit. A later name takes a run of elements: all that are left when it is the last part, and those before the
first element that fits when a tag or a text follows, which takes that element itself. Before another name or before
`[]` it takes one element. A closing `[]` asks that nothing is left, while elements left after any other last part are
not looked at.

`matchParts` gives the variables with their values. Main fact: they are those the pattern names, in its order
(`names_of_matchParts`).
-/

import DerwLang.Proofs.ListPattern.Execution
import Mathlib.Data.List.Basic

namespace DerwLang.Ecma

/-! ## Parts -/

/-- The value is an object with the tag. -/
def Value.hasTag : Value → String → Bool
  | .object member, tag => (member "kind").isText tag
  | _, _ => false

/-- The member of an object under a name. -/
def Value.memberOf : Value → String → Value
  | .object member, name => member name
  | _, _ => .undefined

/-- What an element has to be to match a part, if the part asks for something. Templates are read in the scope around
the pattern. -/
def fitTest? (reading : Reading) (scope : Scope) : ListPart → Option (Value → Bool)
  | .tag pattern => some (·.hasTag pattern.tag)
  | .string text => some (·.isText (reading.quoted text))
  | .formatString text => some (·.isText (reading.template scope text))
  | .name _ | .emptyList => none

/-- The names that a part binds. -/
def boundNames : ListPart → List String
  | .name name => [name]
  | .tag pattern => pattern.fields
  | .string _ | .formatString _ | .emptyList => []

/-- The names that the parts bind, from left to right. -/
def patternNames (parts : List ListPart) : List String :=
  parts.flatMap boundNames

/-- What a part binds when it takes one element. -/
def partValues (value : Value) : ListPart → List (String × Value)
  | .name name => [(name, value)]
  | .tag pattern => pattern.fields.map fun field => (field, value.memberOf field)
  | .string _ | .formatString _ | .emptyList => []

/-! ## Matching -/

/-- The first element that passes a test, between those before and those after it. -/
def cutAtFirst (test : Value → Bool) : List Value → Option (List Value × Value × List Value)
  | [] => none
  | value :: rest =>
    if test value then some ([], value, rest)
    else (cutAtFirst test rest).map fun cut => (value :: cut.1, cut.2)

/-- The variables that later parts bind when they match the elements that are left. -/
def matchLater (reading : Reading) (scope : Scope) :
    List ListPart → List Value → Option (List (String × Value))
  | [], _ => some []
  | .emptyList :: _, items => if items.isEmpty then some [] else none
  | [.name name], items => some [(name, .list items)]
  | .name name :: part :: rest, items =>
    match fitTest? reading scope part with
    | some test =>
      match cutAtFirst test items with
      | none => none
      | some (before, found, after) =>
        (matchLater reading scope rest after).map fun others =>
          (name, .list before) :: (partValues found part ++ others)
    | none =>
      match items with
      | [] => none
      | item :: more =>
        (matchLater reading scope (part :: rest) more).map fun others => (name, item) :: others
  | part :: rest, items =>
    match items with
    | [] => none
    | item :: more =>
      if (fitTest? reading scope part).all (· item) then
        (matchLater reading scope rest more).map fun others => partValues item part ++ others
      else none

/-- The variables that a pattern binds when it matches a list. -/
def matchParts (reading : Reading) (scope : Scope) :
    List ListPart → List Value → Option (List (String × Value))
  | .name name :: rest, items =>
    match items with
    | [] => none
    | item :: more => (matchLater reading scope rest more).map fun others => (name, item) :: others
  | parts, items => matchLater reading scope parts items

/-! ## What matching binds -/

/-- `[]` stands in the last place only. -/
def ClosedAtEnd : List ListPart → Prop
  | [] => True
  | part :: rest => (part = .emptyList → rest = []) ∧ ClosedAtEnd rest

/-- Of several parts there is a first and a second one, and the first is not `[]`. -/
theorem ClosedAtEnd.several {parts : List ListPart} (closed : ClosedAtEnd parts) (several : 2 ≤ parts.length) :
    ∃ part next more, parts = part :: next :: more ∧ part ≠ .emptyList := by
  cases parts with
  | nil => simp at several
  | cons part rest =>
    cases rest with
    | nil => simp at several
    | cons next more => exact ⟨part, next, more, rfl, fun same => absurd (closed.1 same) (List.cons_ne_nil next more)⟩

@[simp]
theorem patternNames_nil : patternNames [] = [] := rfl

@[simp]
theorem patternNames_cons (part : ListPart) (rest : List ListPart) :
    patternNames (part :: rest) = boundNames part ++ patternNames rest := rfl

@[simp]
theorem boundNames_name (name : String) : boundNames (.name name) = [name] := rfl

@[simp]
theorem boundNames_emptyList : boundNames .emptyList = [] := rfl

/-- A part binds the names it has. -/
theorem names_of_partValues (value : Value) (part : ListPart) :
    (partValues value part).map Prod.fst = boundNames part := by
  cases part <;> simp [partValues, boundNames, Function.comp_def]

/-- Later parts bind the names they have. -/
theorem names_of_matchLater {reading : Reading} {scope : Scope} {parts : List ListPart} {items : List Value}
    {bindings : List (String × Value)} (closed : ClosedAtEnd parts)
    (matched : matchLater reading scope parts items = some bindings) :
    bindings.map Prod.fst = patternNames parts := by
  fun_induction matchLater reading scope parts items generalizing bindings with
  | case1 => simp_all
  | case2 => simp_all [ClosedAtEnd]
  | case3 => simp_all
  | case4 =>
    simp only [Option.some.injEq] at matched
    subst matched
    simp
  | case5 => simp_all
  | case6 name part rest items test _ before found after _ step =>
    rw [Option.map_eq_some_iff] at matched
    obtain ⟨others, matched, rfl⟩ := matched
    simp [step closed.2.2 matched, names_of_partValues]
  | case7 => simp_all
  | case8 name part rest _ item more step =>
    rw [Option.map_eq_some_iff] at matched
    obtain ⟨others, matched, rfl⟩ := matched
    simp [step closed.2 matched]
  | case9 => simp_all
  | case10 part rest _ _ _ item more _ step =>
    rw [Option.map_eq_some_iff] at matched
    obtain ⟨others, matched, rfl⟩ := matched
    simp [step closed.2 matched, names_of_partValues]
  | case11 => simp_all

/-- A pattern binds the names it has. -/
theorem names_of_matchParts {reading : Reading} {scope : Scope} {parts : List ListPart} {items : List Value}
    {bindings : List (String × Value)} (closed : ClosedAtEnd parts)
    (matched : matchParts reading scope parts items = some bindings) :
    bindings.map Prod.fst = patternNames parts := by
  unfold matchParts at matched
  split at matched
  · split at matched
    · simp at matched
    · rw [Option.map_eq_some_iff] at matched
      obtain ⟨others, matched, rfl⟩ := matched
      simp [names_of_matchLater closed.2 matched]
  · exact names_of_matchLater closed matched

end DerwLang.Ecma
