/-
**Lowered list patterns match.**

The statements of a whole list pattern reach the body of their branch exactly when the pattern matches the list, and
the variables are then those of the matching (`run_listPattern`). The condition in front tells a list that is too short
for any match (`requiredLength_le`); behind it stands either a single destructuring (`onePass_shape`) or the parts one
by one.

The list is read under a name of its own, and the destructuring of the first part reads it where the names of that
part are declared already. A pattern that binds the very name of the list there makes the statements fault
(`fault_of_own_name`); everywhere else such a name does no harm.
-/

import DerwLang.Proofs.ListPattern.Accepted
import DerwLang.Proofs.ListPattern.Positional

namespace DerwLang.Ecma

section Whole

variable {reading : Reading} {names : List String} {outer : Scope} {body : List Statement}

/-! ## The condition in front -/

/-- The number of tags and texts. -/
def anchorCount (parts : List ListPart) : Nat :=
  (parts.filter fun part => (anchor? part).isSome).length

theorem anchorCount_cons (part : ListPart) (rest : List ListPart) :
    anchorCount (part :: rest) = (if (anchor? part).isSome then 1 else 0) + anchorCount rest := by
  simp only [anchorCount, List.filter_cons]
  split <;> simp [Nat.add_comm]

/-- Tags and texts take an element each. -/
theorem anchorCount_le {parts : List ListPart} {items : List Value} {bindings : List (String × Value)}
    (matched : matchLater reading outer parts items = some bindings) (closed : ClosedAtEnd parts) :
    anchorCount parts ≤ items.length := by
  fun_induction matchLater reading outer parts items generalizing bindings with
  | case1 => simp [anchorCount]
  | case2 =>
    rw [anchorCount, closed.1 rfl]
    simp [anchor?]
  | case3 => simp at matched
  | case4 => simp [anchorCount, anchor?]
  | case5 => simp at matched
  | case6 name part rest items test _ before found after cut step =>
    rw [Option.map_eq_some_iff] at matched
    obtain ⟨others, matched, -⟩ := matched
    obtain ⟨rfl, -⟩ := cutAtFirst_eq cut
    have later := step matched closed.2.2
    rw [anchorCount_cons, anchorCount_cons]
    simp only [List.length_append, List.length_cons]
    split <;> split <;> simp_all [anchor?]
    all_goals omega
  | case7 => simp at matched
  | case8 name part rest _ item more step =>
    rw [Option.map_eq_some_iff] at matched
    obtain ⟨others, matched, -⟩ := matched
    have later := step matched closed.2
    rw [anchorCount_cons]
    simp only [anchor?, Option.isSome_none, Bool.false_eq_true, if_false, List.length_cons]
    omega
  | case9 => simp at matched
  | case10 part rest _ _ _ item more _ step =>
    rw [Option.map_eq_some_iff] at matched
    obtain ⟨others, matched, -⟩ := matched
    have later := step matched closed.2
    rw [anchorCount_cons]
    simp only [List.length_cons]
    split <;> omega
  | case11 => simp at matched

theorem requiredLength_eq (parts : List ListPart) :
    requiredLength parts = anchorCount parts + if parts.head?.any isName then 1 else 0 := rfl

/-- Every pattern needs an element. -/
theorem requiredLength_pos {part : ListPart} (shown : part ≠ .emptyList) (rest : List ListPart) :
    0 < requiredLength (part :: rest) := by
  rw [requiredLength_eq, anchorCount_cons]
  cases part with
  | emptyList => exact absurd rfl shown
  | name =>
    show 0 < 0 + anchorCount rest + 1
    omega
  | tag | string | formatString =>
    show 0 < 1 + anchorCount rest + 0
    omega

/-- **A list that is matched has the required length.** -/
theorem requiredLength_le {parts : List ListPart} {items : List Value} {bindings : List (String × Value)}
    (matched : matchParts reading outer parts items = some bindings) (closed : ClosedAtEnd parts) :
    requiredLength parts ≤ items.length := by
  unfold matchParts at matched
  split at matched
  · rename_i name rest
    split at matched
    · simp at matched
    · rename_i item more
      rw [Option.map_eq_some_iff] at matched
      obtain ⟨others, matched, -⟩ := matched
      have later := anchorCount_le matched closed.2
      rw [requiredLength_eq, anchorCount_cons]
      simp only [anchor?, Option.isSome_none, Bool.false_eq_true, if_false, List.length_cons, List.head?_cons,
        Option.any_some, isName, if_true]
      omega
  · rename_i unnamed
    have first := anchorCount_le matched closed
    have plain : parts.head?.any isName = false := by
      cases parts with
      | nil => rfl
      | cons part rest =>
        cases part
        case name name => exact absurd rfl (unnamed name rest)
        all_goals rfl
    rw [requiredLength_eq, plain]
    simpa using first

/-! ## Patterns for one destructuring -/

/-- **A pattern for one destructuring**: a first part, then tags and texts, and behind them a gap, a closing `[]`, or
nothing. -/
structure OnePass (parts : List ListPart) (head : ListPart) (others last : List ListPart)
    (rest : Option String) : Prop where
  whole : parts = head :: others ++ last
  shown : head ≠ .emptyList
  anchored : ∀ part ∈ others, (anchor? part).isSome
  split : splitLast parts = (head :: others, rest)
  beside : rest.toList = if onlyFinalGap parts then patternNames parts.getLast?.toList else []
  closes : last = [] ∧ rest = none ∨ last = [.emptyList] ∧ rest = none ∨
    ∃ gap, last = [.name gap] ∧ rest = some gap

theorem anchorCount_of_all {parts : List ListPart} (anchored : ∀ part ∈ parts, (anchor? part).isSome) :
    anchorCount parts = parts.length := by
  rw [anchorCount, List.filter_eq_self.mpr anchored]

/-- One destructuring needs an element for each part before the last. -/
theorem OnePass.requiredLength {parts : List ListPart} {head : ListPart} {others last : List ListPart}
    {rest : Option String} (pass : OnePass parts head others last rest) :
    requiredLength parts = (head :: others).length := by
  have tail : anchorCount last = 0 := by
    rcases pass.closes with ⟨rfl, -⟩ | ⟨rfl, -⟩ | ⟨gap, rfl, -⟩ <;> rfl
  have shown := pass.shown
  have middle : anchorCount (others ++ last) = others.length := by
    rw [← anchorCount_of_all pass.anchored, anchorCount, List.filter_append, List.length_append]
    simpa [anchorCount] using tail
  rw [requiredLength_eq, pass.whole, List.cons_append, anchorCount_cons, middle]
  cases head <;> simp_all [anchor?, isName, Nat.add_comm]

/-- A pattern that ends in `[]` has nothing else behind its tags and texts. -/
theorem OnePass.last_of_closed {parts : List ListPart} {head : ListPart} {others last : List ListPart}
    {rest : Option String} (pass : OnePass parts head others last rest)
    (final : parts.getLast? = some .emptyList) : last = [.emptyList] := by
  rcases pass.closes with ⟨rfl, -⟩ | ⟨rfl, -⟩ | ⟨gap, rfl, -⟩
  · rw [pass.whole, List.append_nil] at final
    rcases List.mem_cons.mp (List.mem_of_getLast? final) with equal | member
    · exact absurd equal.symm pass.shown
    · exact absurd (pass.anchored _ member) (by simp [anchor?])
  · rfl
  · rw [pass.whole, List.getLast?_concat] at final
    simp at final

/-- `[]` stands behind no other part. -/
theorem ClosedAtEnd.not_early {first last : List ListPart} {part : ListPart}
    (closed : ClosedAtEnd (first ++ part :: last)) : ∀ other ∈ first, other ≠ .emptyList := by
  induction first with
  | nil => simp
  | cons other rest step =>
    intro any_ member
    rcases List.mem_cons.mp member with rfl | later
    · intro equal
      have none_ := closed.1 equal
      simp at none_
    · exact step closed.2 any_ later

/-- What is neither a name nor `[]` is a tag or a text. -/
theorem anchored_of_shown {part : ListPart} (shown : part ≠ .emptyList) (unnamed : isName part = false) :
    (anchor? part).isSome := by
  cases part <;> simp_all [isName, anchor?]

/-- The test of `listPattern` finds such patterns. -/
theorem onePass_shape {parts : List ListPart} (several : 2 ≤ parts.length) (closed : ClosedAtEnd parts)
    (pass : (gapCount parts == 0 || onlyFinalGap parts) = true) :
    ∃ head others last rest, OnePass parts head others last rest := by
  obtain ⟨head, tail, rfl⟩ : ∃ head tail, parts = head :: tail := by
    cases parts with
    | nil => simp at several
    | cons head tail => exact ⟨head, tail, rfl⟩
  have some_ : tail ≠ [] := by
    rintro rfl
    simp at several
  obtain ⟨middle, final, rfl⟩ : ∃ middle final, tail = middle ++ [final] :=
    ⟨tail.dropLast, tail.getLast some_, (List.dropLast_append_getLast some_).symm⟩
  have early : ∀ part ∈ head :: middle, part ≠ .emptyList :=
    ClosedAtEnd.not_early (show ClosedAtEnd ((head :: middle) ++ final :: []) from closed)
  have gaps : gapCount (head :: (middle ++ [final])) =
      (middle.filter isName).length + if isName final then 1 else 0 := by
    simp only [gapCount, List.tail_cons, List.filter_append, List.length_append, List.filter_cons,
      List.filter_nil]
    split <;> rfl
  have lastPart : (head :: (middle ++ [final])).getLast? = some final := by
    rw [← List.cons_append, List.getLast?_concat]
  have front : (head :: (middle ++ [final])).dropLast = head :: middle := by
    rw [← List.cons_append, List.dropLast_concat]
  have plain : (middle.filter isName).length = 0 → ∀ part ∈ middle, (anchor? part).isSome := by
    intro none_ part member
    refine anchored_of_shown (early part (List.mem_cons_of_mem _ member)) ?_
    rw [List.length_eq_zero_iff, List.filter_eq_nil_iff] at none_
    simpa using none_ part member
  have single : onlyFinalGap (head :: (middle ++ [final])) =
      (gapCount (head :: (middle ++ [final])) == 1 && isName final) := by
    rw [onlyFinalGap, lastPart, Option.any_some]
  simp only [single, gaps, Bool.or_eq_true, Bool.and_eq_true, beq_iff_eq] at pass
  cases anchored : (anchor? final).isSome with
  | true =>
    have unnamed : isName final = false := by cases final <;> simp_all [anchor?, isName]
    refine ⟨head, middle ++ [final], [], none, by simp, early head List.mem_cons_self, ?_, ?_,
      by simp [single, unnamed], .inl ⟨rfl, rfl⟩⟩
    · intro part member
      rcases List.mem_append.mp member with inside | atEnd
      · exact plain (by simpa [unnamed] using pass) part inside
      · rwa [List.mem_singleton.mp atEnd]
    · rw [splitLast, lastPart]
      cases final <;> simp_all [anchor?]
  | false =>
    cases final <;> simp only [anchor?, Option.isSome_some, reduceCtorEq] at anchored
    case name gap =>
      have only : (middle.filter isName).length = 0 := by simpa [isName] using pass
      refine ⟨head, middle, [.name gap], some gap, by simp, early head List.mem_cons_self, plain only, ?_,
        by simp [single, gaps, only, lastPart, isName], .inr (.inr ⟨gap, rfl, rfl⟩)⟩
      rw [splitLast, lastPart, front]
    case emptyList =>
      refine ⟨head, middle, [.emptyList], none, by simp, early head List.mem_cons_self, plain ?_, ?_,
        by simp [single, isName], .inr (.inl ⟨rfl, rfl⟩)⟩
      · simpa [isName] using pass
      · rw [splitLast, lastPart, front]

/-! ## The block that reads the list -/

/-- The name of a first part that is a name. -/
def firstNames : List ListPart → List String
  | .name name :: _ => [name]
  | _ => []

/-- The names that are bound where the list is read: a first part that is a name, and the last part when it is the only
gap. -/
def besideList (parts : List ListPart) : List String :=
  firstNames parts ++ if onlyFinalGap parts then patternNames parts.getLast?.toList else []

/-- The statements behind the condition. -/
def behindLength (list : String) (parts : List ListPart) (body : List Statement) : List Statement :=
  if gapCount parts == 0 || onlyFinalGap parts then positional list parts body
  else sequential 0 list body parts

/-- The condition on the length of the list. -/
def lengthCondition (list : String) (parts : List ListPart) : Condition :=
  if parts.getLast? == some .emptyList && gapCount parts == 0 then .lengthIs list (requiredLength parts)
  else .lengthAtLeast list (requiredLength parts)

theorem listPattern_eq (list : String) (parts : List ListPart) (body : List Statement) :
    listPattern list parts body = [.guarded (lengthCondition list parts) (behindLength list parts body)] := rfl

/-- Later parts declare made names only, one last name aside. -/
theorem isMade_of_mem_sequential (work : ∀ statement ∈ body, statement.isWork) {parts : List ListPart}
    (several : ∀ name, parts ≠ [.name name]) {index : Nat} {list name : String}
    (member : name ∈ declaredNames (sequential (index + 1) list body parts)) : IsMade name := by
  have none_ := declaredNames_body work
  match parts with
  | [] => simp [sequential, none_] at member
  | [.name other] => exact absurd rfl (several other)
  | .emptyList :: rest => simp [sequential, declaredNames, Statement.declares] at member
  | .name other :: part :: rest =>
    cases anchored : anchor? part with
    | some anchor =>
      rw [sequential_gap index other list anchored, gapSearch_eq] at member
      have same : name = foundName (index + 2) := by
        simpa [declaredNames, Statement.declares] using member
      exact same ▸ isMade_madeName .found (index + 2)
    | none =>
      rw [sequential_single (index + 1) other list anchored, peel_succ] at member
      simp [declaredNames, Statement.declares] at member
  | .tag _ :: rest | .string _ :: rest | .formatString _ :: rest =>
    rw [sequential_anchor (index + 1) list rfl, peel_succ] at member
    simp [declaredNames, Statement.declares] at member

/-- The elements of tags and texts have made names. -/
theorem isMade_of_mem_elementNames {parts : List ListPart} (anchored : ∀ part ∈ parts, (anchor? part).isSome)
    {index : Nat} {name : String} (member : name ∈ elementNames index parts) : IsMade name := by
  induction parts generalizing index with
  | nil => simp [elementNames] at member
  | cons part rest step =>
    rcases List.mem_cons.mp member with rfl | later
    · rw [elementName_anchor index (anchored part List.mem_cons_self)]
      exact isMade_madeName .element index
    · exact step (fun other member => anchored other (List.mem_cons_of_mem _ member)) later

/-- The block of one destructuring declares, made names aside, what is bound beside the list. -/
theorem declares_positional (work : ∀ statement ∈ body, statement.isWork) {list name : String}
    {parts : List ListPart} {head : ListPart} {others last : List ListPart} {rest : Option String}
    (pass : OnePass parts head others last rest) (notMade : ¬ IsMade name) :
    name ∈ declaredNames (positional list parts body) ↔ name ∈ besideList parts := by
  have elements : name ∈ elementNames 0 (head :: others) ↔ name ∈ firstNames parts := by
    have later : name ∉ elementNames 1 others := fun member =>
      notMade (isMade_of_mem_elementNames pass.anchored member)
    have made : name ≠ madeName .element 0 := fun equal => notMade (equal ▸ isMade_madeName .element 0)
    rw [pass.whole, elementNames, List.mem_cons, or_iff_left later]
    cases head with
    | name first => simp [elementName, firstNames]
    | tag | string | formatString | emptyList => simpa [firstNames, elementName, madeName, Role.start] using made
  rw [declaredNames_positional work pass.split, List.mem_append, elements, pass.beside, besideList, List.mem_append]

/-- The block that takes off the first part declares, made names aside, what is bound beside the list. -/
theorem declares_sequential (work : ∀ statement ∈ body, statement.isWork) {list name : String}
    {part next : ListPart} {rest : List ListPart} (closed : ClosedAtEnd (part :: next :: rest))
    (test : (gapCount (part :: next :: rest) == 0 || onlyFinalGap (part :: next :: rest)) = false)
    (notMade : ¬ IsMade name) :
    name ∈ declaredNames (sequential 0 list body (part :: next :: rest)) ↔
      name ∈ besideList (part :: next :: rest) := by
  have shown : part ≠ .emptyList := fun equal => absurd (closed.1 equal) (by simp)
  rw [Bool.or_eq_false_iff] at test
  have several : ∀ other, next :: rest ≠ [.name other] := by
    rintro other equal
    rw [equal] at test
    simp [gapCount, onlyFinalGap, isName, List.filter_cons] at test
  have later : name ∉ declaredNames (sequential 1 (restName 0) body (next :: rest)) :=
    fun member => notMade (isMade_of_mem_sequential work several member)
  have notRest : name ≠ restName 0 := fun equal => notMade (equal ▸ isMade_madeName .rest 0)
  have notElement : name ≠ madeName .element 0 := fun equal => notMade (equal ▸ isMade_madeName .element 0)
  rw [sequential_zero list shown, besideList, test.2]
  cases anchored : (anchor? part).isSome with
  | true =>
    have front : firstNames (part :: next :: rest) = [] := by cases part <;> simp_all [anchor?, firstNames]
    have declared := declaredNames_peeled_anchor anchored 0 list (next :: rest)
      (sequential 1 (restName 0) body (next :: rest))
    simp only [List.isEmpty_cons] at declared
    rw [declared, front]
    simp [notElement, restOf, notRest]
  | false =>
    cases part <;> simp only [anchor?, Option.isSome_some, reduceCtorEq] at anchored
    case emptyList => exact absurd rfl shown
    case name first =>
      have declared : declaredNames (peeled 0 list (.name first) false
          (sequential 1 (restName 0) body (next :: rest))) =
            first :: restName 0 :: declaredNames (sequential 1 (restName 0) body (next :: rest)) := rfl
      rw [declared]
      simp [firstNames, notRest, later]

/-- **The block that reads the list declares, made names aside, what is bound beside the list.** -/
theorem declares_behindLength (work : ∀ statement ∈ body, statement.isWork) {list name : String}
    {parts : List ListPart} (several : 2 ≤ parts.length) (closed : ClosedAtEnd parts)
    (notMade : ¬ IsMade name) :
    name ∈ declaredNames (behindLength list parts body) ↔ name ∈ besideList parts := by
  cases test : gapCount parts == 0 || onlyFinalGap parts with
  | true =>
    obtain ⟨head, others, last, rest, pass⟩ := onePass_shape several closed test
    rw [behindLength, if_pos test]
    exact declares_positional work pass notMade
  | false =>
    obtain ⟨part, next, rest, rfl, -⟩ := closed.several several
    rw [behindLength, if_neg (by rw [test]; simp)]
    exact declares_sequential work closed test notMade

/-! ## Whole patterns -/

/-- A list of the length that the condition asks for is told from all others. -/
theorem lengthCondition_holds {scope : Scope} {list : String} {items : List Value}
    (held : scope list = some (.list items)) (parts : List ListPart) :
    (lengthCondition list parts).holds? reading scope =
      some (if parts.getLast? == some .emptyList && gapCount parts == 0
        then items.length == requiredLength parts else decide (requiredLength parts ≤ items.length)) := by
  unfold lengthCondition
  split <;> simp [Condition.holds?, Scope.items?, held, Value.items?]

/-- **Behind the condition the pattern matches or not.** -/
theorem run_behindLength (work : ∀ statement ∈ body, statement.isWork) (some_ : body ≠ [])
    {parts : List ListPart} (several : 2 ≤ parts.length) (proper : Proper reading names parts)
    {scope : Scope} {list : String} {items : List Value} (elements : ∀ item ∈ items, item.Answers)
    (held : scope list = some (.list items))
    (long : (lengthCondition list parts).holds? reading scope = some true)
    (unhidden : list ∉ declaredNames (behindLength list parts body)) :
    (declaredNames (behindLength list parts body)).Nodup ∧
      Ends scope body
        ((Statement.runEach reading (scope.hide (declaredNames (behindLength list parts body)))
          (behindLength list parts body)).leaving scope)
        (matchParts reading scope parts items) := by
  rw [lengthCondition_holds held, Option.some.injEq] at long
  have enough : requiredLength parts ≤ items.length := by
    split at long
    · exact Nat.le_of_eq (by simpa using Eq.symm (beq_iff_eq.mp long))
    · simpa using long
  cases test : gapCount parts == 0 || onlyFinalGap parts with
  | true =>
    obtain ⟨head, others, last, rest, pass⟩ := onePass_shape several proper.closed test
    rw [pass.requiredLength] at enough long
    rw [behindLength, if_pos test] at unhidden ⊢
    have lastNames : patternNames last = rest.toList := by
      rcases pass.closes with ⟨rfl, rfl⟩ | ⟨rfl, rfl⟩ | ⟨gap, rfl, rfl⟩ <;> rfl
    have lastMatched : matchLater reading scope last (items.drop (head :: others).length) =
        some (rest.toList.map fun name => (name, .list (items.drop (head :: others).length))) := by
      rcases pass.closes with ⟨rfl, rfl⟩ | ⟨rfl, rfl⟩ | ⟨gap, rfl, rfl⟩
      · rfl
      · have final : parts.getLast? = some .emptyList := by rw [pass.whole, List.getLast?_concat]
        have noGap : gapCount parts = 0 := by simpa [onlyFinalGap, final, isName] using test
        rw [if_pos (by simp [final, noGap])] at long
        have none_ : items.drop (head :: others).length = [] :=
          List.drop_eq_nil_of_le (Nat.le_of_eq (beq_iff_eq.mp long))
        rw [none_]
        rfl
      · rfl
    obtain rfl := pass.whole
    exact run_positional work some_ pass.split pass.shown pass.anchored lastNames proper enough lastMatched
      elements held unhidden
  | false =>
    obtain ⟨part, next, rest, rfl, shown⟩ := proper.closed.several several
    rw [behindLength, if_neg (by rw [test]; simp)] at unhidden ⊢
    cases items with
    | nil => exact absurd (requiredLength_pos shown (next :: rest)) (by simpa using enough)
    | cons item more => exact run_sequential work some_ proper elements held unhidden

/-- **A list whose length the condition refuses is matched by no pattern.** -/
theorem matchParts_of_refused {parts : List ListPart} (several : 2 ≤ parts.length) (closed : ClosedAtEnd parts)
    {scope : Scope} {list : String} {items : List Value} (held : scope list = some (.list items))
    (refused : (lengthCondition list parts).holds? reading scope = some false) :
    matchParts reading scope parts items = none := by
  rw [lengthCondition_holds held, Option.some.injEq] at refused
  cases matched : matchParts reading scope parts items with
  | none => rfl
  | some bindings =>
    have enough := requiredLength_le matched closed
    split at refused
    · rename_i exact_
      simp only [Bool.and_eq_true, beq_iff_eq] at exact_
      have test : (gapCount parts == 0 || onlyFinalGap parts) = true := by simp [exact_.2]
      obtain ⟨head, others, last, rest, pass⟩ := onePass_shape several closed test
      obtain rfl := pass.last_of_closed exact_.1
      rw [pass.whole, matchParts_each pass.shown pass.anchored] at matched
      rw [pass.requiredLength] at refused enough
      have left : items.drop (head :: others).length ≠ [] := by
        rw [ne_eq, List.drop_eq_nil_iff]
        have differs : items.length ≠ (head :: others).length := by simpa using refused
        omega
      split at matched
      · rw [matchLater, if_neg (by simpa [List.isEmpty_iff] using left)] at matched
        simp at matched
      · simp at matched
    · simp at refused
      omega

/-- The block reads the list first of all. -/
theorem behindLength_first (list : String) {parts : List ListPart} (several : 2 ≤ parts.length)
    (closed : ClosedAtEnd parts) (body : List Statement) :
    ∃ taken rest others, behindLength list parts body = .bindElements taken rest list :: others := by
  cases test : gapCount parts == 0 || onlyFinalGap parts with
  | true =>
    obtain ⟨head, others, last, rest, pass⟩ := onePass_shape several closed test
    rw [behindLength, if_pos test, positional_eq pass.split]
    exact ⟨_, _, _, rfl⟩
  | false =>
    obtain ⟨part, next, rest, rfl, shown⟩ := closed.several several
    rw [behindLength, if_neg (by rw [test]; simp), sequential_zero list shown, peeled]
    cases partTest? part (elementName 0 part) <;> exact ⟨_, _, _, rfl⟩

end Whole

/-! ## Bodies -/

/-- Whatever names are given so far, what lowering yields has the property. -/
def Yields {α : Type} (action : Lowering α) (property : α → Prop) : Prop :=
  ∀ names, property (action names).1

theorem Yields.pure {α : Type} {value : α} {property : α → Prop} (holds : property value) :
    Yields (pure value) property := fun _ => holds

theorem Yields.bind {α β : Type} {action : Lowering α} {next : α → Lowering β} {property : β → Prop}
    {middle : α → Prop} (first : Yields action middle)
    (later : ∀ value, middle value → Yields (next value) property) : Yields (action >>= next) property :=
  fun names => later (action names).1 (first names) (action names).2

/-- Nothing is asked of what comes first. -/
theorem Yields.after {α β : Type} (action : Lowering α) {next : α → Lowering β} {property : β → Prop}
    (later : ∀ value, Yields (next value) property) : Yields (action >>= next) property :=
  fun names => later (action names).1 (action names).2

/-- The statements are a body: there are some, and all of them are work. -/
def IsBody (body : List Statement) : Prop :=
  (∀ statement ∈ body, statement.isWork) ∧ body ≠ []

/-- An expression is lowered to a body. -/
theorem lower_isBody (dialect : Dialect) (atEnd : Bool) (expression : Expression) :
    Yields (lower dialect atEnd expression) fun lowered => IsBody lowered.toStatements := by
  have term : ∀ value : Term, IsBody (Lowered.term value).toStatements := by
    simp [IsBody, Lowered.toStatements, Statement.isWork]
  cases expression with
  | value | string | formatString | range =>
    rw [lower]
    exact .pure (term _)
  | list =>
    rw [lower]
    exact .after _ fun _ => .pure (term _)
  | call =>
    rw [lower]
    exact .after _ fun _ => .pure (term _)
  | reference =>
    rw [lower]
    exact .after _ fun _ => .pure (term _)
  | record fields =>
    cases fields
    rw [lower]
    exact .after _ fun _ => .pure (term _)
  | construct tag fields =>
    cases fields
    rw [lower]
    exact .after _ fun _ => .pure (term _)
  | lambda function =>
    cases function
    rw [lower]
    exact .after _ fun _ => .pure (term _)
  | lambdaCall function =>
    cases function
    rw [lower]
    exact .after _ fun _ => .after _ fun _ => .pure (term _)
  | binary operator =>
    by_cases pipe : operator = .pipeInto
    · subst pipe
      rw [lower]
      exact .after _ fun _ => .after _ fun _ => .pure (term _)
    · rw [lower]
      · refine .after _ fun _ => .after _ fun _ => ?_
        split <;> exact .pure (term _)
      · exact pipe
  | caseOf =>
    rw [lower]
    refine .after _ fun _ => .after _ fun _ => .after _ fun _ => .pure ?_
    simp [IsBody, Lowered.toStatements, caseStatements, Statement.isWork]
  | conditional predicate yes no =>
    cases yes
    cases no
    rw [lower]
    refine .after _ fun _ => ?_
    split
    · refine .after _ fun _ => .after _ fun _ => .after _ fun _ => .after _ fun _ => .pure ?_
      simp [IsBody, Lowered.toStatements, Statement.isWork]
    · exact .after _ fun _ => .after _ fun _ => .pure (term _)

/-- Local definitions are lowered to work. -/
theorem lowerBlocks_isWork (dialect : Dialect) (blocks : List Block) :
    Yields (lowerBlocks dialect blocks) fun body => ∀ statement ∈ body, statement.isWork := by
  induction blocks with
  | nil =>
    rw [lowerBlocks]
    exact .pure (by simp)
  | cons block rest step =>
    rw [lowerBlocks]
    refine .after _ fun _ => step.bind fun others work => .pure ?_
    simpa [Statement.isWork] using work

/-- **The bodies that branches are lowered to** are reached at their first statement. -/
theorem lowerBranches_isBody (dialect : Dialect) (branches : List Branch) :
    Yields (lowerBranches dialect branches) fun lowered => ∀ branch ∈ lowered, IsBody branch.2 := by
  induction branches with
  | nil =>
    rw [lowerBranches]
    exact .pure (by simp)
  | cons branch rest step =>
    obtain ⟨pattern, locals, result⟩ := branch
    rw [lowerBranches]
    refine (lowerBlocks_isWork dialect locals).bind fun locals work =>
      (lower_isBody dialect true result).bind fun result body => step.bind fun others bodies => .pure ?_
    intro branch member
    rcases List.mem_cons.mp member with rfl | later
    · refine ⟨fun statement member => ?_, by simp [body.2]⟩
      rcases List.mem_append.mp member with local_ | own
      · exact work statement local_
      · exact body.1 statement own
    · exact bodies branch later

/-! ## The whole lowering -/

/-- **A pattern that binds the name of the list beside the list faults** on every list that is long enough. -/
theorem fault_of_own_name {reading : Reading} {parts : List ListPart} (several : 2 ≤ parts.length)
    (closed : ClosedAtEnd parts) {scope : Scope} {list : String} (notMade : ¬ IsMade list)
    (own : list ∈ besideList parts) {body : List Statement} (work : ∀ statement ∈ body, statement.isWork)
    (long : (lengthCondition list parts).holds? reading scope = some true) :
    Statement.runEach reading scope (listPattern list parts body) = .fault := by
  have hidden : list ∈ declaredNames (behindLength list parts body) :=
    (declares_behindLength work several closed notMade).mpr own
  obtain ⟨taken, rest, others, first⟩ := behindLength_first list several closed body
  have unread : Statement.runEach reading (scope.hide (declaredNames (behindLength list parts body)))
      (behindLength list parts body) = .fault := by
    rw [first] at hidden ⊢
    simp [Statement.runEach, Statement.run, Statement.isWork, Statement.bindings?, Scope.items?,
      Scope.hide, hidden]
  rw [listPattern_eq]
  by_cases distinct : (declaredNames (behindLength list parts body)).Nodup
  · rw [runEach_guarded_true long distinct, unread]
    rfl
  · simp [Statement.runEach, Statement.run, Statement.isWork, long, distinct]

/-- **The statements of a pattern do its matching**, where the name of the list is not bound beside the list. -/
theorem ends_listPattern {reading : Reading} {parts : List ListPart} (several : 2 ≤ parts.length)
    (proper : Proper reading (patternNames parts) parts) {scope : Scope} {list : String} (notMade : ¬ IsMade list)
    {items : List Value} (held : scope list = some (.list items)) (answers : ∀ item ∈ items, item.Answers)
    (apart : list ∉ besideList parts) {body : List Statement} (work : ∀ statement ∈ body, statement.isWork)
    (some_ : body ≠ []) :
    Ends scope body (Statement.runEach reading scope (listPattern list parts body))
      (matchParts reading scope parts items) := by
  rw [listPattern_eq]
  cases long : (lengthCondition list parts).holds? reading scope with
  | none => simp [lengthCondition_holds held] at long
  | some holds =>
    cases holds with
    | false =>
      rw [runEach_guarded_false long, matchParts_of_refused several proper.closed held long]
      exact ⟨scope, rfl⟩
    | true =>
      have unhidden : list ∉ declaredNames (behindLength list parts body) :=
        fun member => apart ((declares_behindLength work several proper.closed notMade).mp member)
      obtain ⟨once, ends⟩ := run_behindLength work some_ several proper answers held long unhidden
      rw [runEach_guarded_true long once]
      exact ends

/-- Quotations and templates that have themselves as texts. -/
def plainReading : Reading := ⟨id, fun _ text => text⟩

/-- A scope with one list under one name. -/
def listScope (list : String) (items : List Value) : Scope :=
  fun name => if name = list then some (.list items) else none

/-- The tokens of `first :: gap :: "b" :: others`. -/
def gapWindow : Window :=
  ⟨1, [⟨.identifier, "first", 1, 1⟩, ⟨.operator .cons, "::", 1, 7⟩, ⟨.identifier, "gap", 1, 10⟩,
    ⟨.operator .cons, "::", 1, 14⟩, ⟨.string, "\"b\"", 1, 17⟩, ⟨.operator .cons, "::", 1, 21⟩,
    ⟨.identifier, "others", 1, 24⟩]⟩

/-- The tokens of `_res3835 :: rest`. -/
def ownNameWindow : Window :=
  ⟨1, [⟨.identifier, "_res3835", 1, 1⟩, ⟨.operator .cons, "::", 1, 10⟩, ⟨.identifier, "rest", 1, 13⟩]⟩

end DerwLang.Ecma
