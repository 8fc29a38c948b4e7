/-
**Parts that take one element each.**

When only the last part may be a gap, one destructuring names all elements, the tests of all parts are made at once,
and the fields are bound behind them. The elements have the names given to them (`holds_elements`), the tests together
ask what matching asks part by part (`allHold_eq`), and the fields are those of matching (`run_elementBindings`).
Together these make `run_positional`.
-/

import DerwLang.Proofs.ListPattern.Sequence

namespace DerwLang.Ecma

section Positional

variable {reading : Reading} {names : List String} {outer : Scope} {body : List Statement}

/-! ## Matching part by element -/

/-- Every part has an element, and it fits. -/
def fitEach (reading : Reading) (scope : Scope) : List ListPart → List Value → Bool
  | [], _ => true
  | _ :: _, [] => false
  | part :: rest, item :: more =>
    (fitTest? reading scope part).all (· item) && fitEach reading scope rest more

/-- What the parts bind of their elements. -/
def eachValues : List ListPart → List Value → List (String × Value)
  | part :: rest, item :: more => partValues item part ++ eachValues rest more
  | _, _ => []

/-- Parts with an element each bind the names they have. -/
theorem names_of_eachValues {parts : List ListPart} {items : List Value} (enough : parts.length ≤ items.length) :
    (eachValues parts items).map Prod.fst = patternNames parts := by
  induction parts generalizing items with
  | nil => rfl
  | cons part rest step =>
    cases items with
    | nil => simp at enough
    | cons item more =>
      rw [eachValues, List.map_append, names_of_partValues, step (by simpa using enough), patternNames_cons]

theorem length_of_fitEach {parts : List ListPart} {items : List Value}
    (fit : fitEach reading outer parts items = true) : parts.length ≤ items.length := by
  induction parts generalizing items with
  | nil => simp
  | cons part rest step =>
    cases items with
    | nil => simp [fitEach] at fit
    | cons item more =>
      simp only [fitEach, Bool.and_eq_true] at fit
      simpa using step fit.2

/-- Tags and texts match one by one, and then comes what is behind them. -/
theorem matchLater_each {parts : List ListPart} (anchored : ∀ part ∈ parts, (anchor? part).isSome)
    (last : List ListPart) (items : List Value) :
    matchLater reading outer (parts ++ last) items =
      if fitEach reading outer parts items then
        (matchLater reading outer last (items.drop parts.length)).map (eachValues parts items ++ ·)
      else none := by
  induction parts generalizing items with
  | nil => simp [fitEach, eachValues]
  | cons part rest step =>
    obtain ⟨anchor, isAnchor⟩ := Option.isSome_iff_exists.mp (anchored part List.mem_cons_self)
    have later := step fun other member => anchored other (List.mem_cons_of_mem _ member)
    cases items with
    | nil => simp [matchLater_anchor_nil isAnchor, fitEach]
    | cons item more =>
      rw [List.cons_append, matchLater_anchor isAnchor, later]
      simp only [fitEach, fitTest?_eq, isAnchor, Option.map_some, Option.all_some, eachValues, List.length_cons,
        List.drop_succ_cons]
      cases anchor.fits reading outer item
      · simp
      · cases fitEach reading outer rest more
        · simp
        · simp [Function.comp_def]

/-- The same with a name in front. -/
theorem matchParts_each {head : ListPart} {parts last : List ListPart} (shown : head ≠ .emptyList)
    (anchored : ∀ part ∈ parts, (anchor? part).isSome) (items : List Value) :
    matchParts reading outer (head :: parts ++ last) items =
      if fitEach reading outer (head :: parts) items then
        (matchLater reading outer last (items.drop (head :: parts).length)).map
          (eachValues (head :: parts) items ++ ·)
      else none := by
  cases isAnchor : anchor? head with
  | some anchor =>
    have all : ∀ part ∈ head :: parts, (anchor? part).isSome := by
      intro part member
      rcases List.mem_cons.mp member with rfl | member
      · rw [isAnchor]
        rfl
      · exact anchored part member
    rw [← matchLater_each all last items]
    cases head <;> simp [anchor?] at isAnchor <;> rfl
  | none =>
    cases head <;> simp only [anchor?, reduceCtorEq] at isAnchor
    case emptyList => exact absurd rfl shown
    case name name =>
      cases items with
      | nil => simp [matchParts, fitEach]
      | cons item more =>
        rw [List.cons_append, matchParts, matchLater_each anchored]
        simp only [fitEach, fitTest?, Option.all_none, Bool.true_and, eachValues, List.length_cons,
          List.drop_succ_cons, partValues]
        cases fitEach reading outer parts more <;> simp [Function.comp_def]

/-! ## The elements under their names -/

/-- Every part's element is held under the name that it has. -/
def Holds (scope : Scope) : Nat → List ListPart → List Value → Prop
  | _, [], _ => True
  | _, _ :: _, [] => False
  | index, part :: rest, item :: more =>
    scope (elementName index part) = some item ∧ Holds scope (index + 1) rest more

/-- The names of elements are those of the pattern, or made. -/
theorem mem_elementNames {parts : List ListPart} {index : Nat} {name : String}
    (member : name ∈ elementNames index parts) :
    name ∈ patternNames parts ∨ ∃ later, index ≤ later ∧ name = madeName .element later := by
  induction parts generalizing index with
  | nil => simp [elementNames] at member
  | cons part rest step =>
    rcases List.mem_cons.mp member with rfl | member
    · cases part
      case name => exact .inl (by simp [elementName])
      all_goals exact .inr ⟨index, Nat.le_refl _, rfl⟩
    · rcases step member with listed | ⟨later, further, rfl⟩
      · exact .inl (List.mem_append_right _ listed)
      · exact .inr ⟨later, by omega, rfl⟩

/-- The name of an element is one of the pattern unless it is made. -/
theorem shown_of_mem_elementNames {parts : List ListPart} {index : Nat} {name : String}
    (member : name ∈ elementNames index parts) (notMade : ¬ IsMade name) : name ∈ patternNames parts := by
  rcases mem_elementNames member with listed | ⟨later, _, rfl⟩
  · exact listed
  · exact absurd (isMade_madeName .element later) notMade

/-- The name of an element is that of its part, or made. -/
theorem elementName_cases (index : Nat) (part : ListPart) :
    elementName index part ∈ boundNames part ∨ elementName index part = madeName .element index := by
  cases part <;> simp [elementName, madeName, Role.start]

/-- No two elements have one name. -/
theorem nodup_elementNames {parts : List ListPart} (distinct : (patternNames parts).Nodup)
    (unmade : ∀ name ∈ patternNames parts, ¬ IsMade name) (index : Nat) :
    (elementNames index parts).Nodup := by
  induction parts generalizing index with
  | nil => simp [elementNames]
  | cons part rest step =>
    rw [patternNames_cons, List.nodup_append] at distinct
    refine List.nodup_cons.mpr ⟨fun member => ?_, step distinct.2.1
      (fun name member => unmade name (List.mem_append_right _ member)) (index + 1)⟩
    rcases elementName_cases index part with own | made
    · rcases mem_elementNames member with listed | ⟨later, _, same⟩
      · exact distinct.2.2 _ own _ listed rfl
      · exact unmade _ (List.mem_append_left _ own) ⟨.element, later, same⟩
    · rw [made] at member
      rcases mem_elementNames member with listed | ⟨later, further, same⟩
      · exact unmade _ (List.mem_append_right _ listed) (isMade_madeName .element index)
      · have := (madeName_inj.mp same).2
        omega

/-- A destructuring binds the names of the elements, and the name of the rest. -/
theorem names_of_elementValues (rest : Option String) (bound : List String) (items : List Value) :
    (elementValues rest bound items).map Prod.fst = bound ++ rest.toList := by
  fun_induction elementValues rest bound items <;> simp_all [Function.comp_def]

/-- Behind the names of elements the rest is what is left. -/
theorem elementValues_eq (rest : Option String) (parts : List ListPart) (index : Nat) {items : List Value}
    (enough : parts.length ≤ items.length) :
    ∃ named : List (String × Value), named.map Prod.fst = elementNames index parts ∧
      elementValues rest (elementNames index parts) items =
        named ++ rest.toList.map fun name => (name, .list (items.drop parts.length)) := by
  induction parts generalizing index items with
  | nil => exact ⟨[], rfl, by simp [elementNames, elementValues]⟩
  | cons part others step =>
    cases items with
    | nil => simp at enough
    | cons item more =>
      obtain ⟨named, keys, same⟩ := step (index + 1) (by simpa using enough)
      exact ⟨(elementName index part, item) :: named, by simp [elementNames, keys],
        by simp [elementNames, elementValues, same]⟩

/-- **A destructuring holds every element under its name.** -/
theorem holds_elements {rest : Option String} {parts : List ListPart} {index : Nat} {items : List Value}
    (distinct : (elementNames index parts).Nodup) (enough : parts.length ≤ items.length)
    (first : List (String × Value)) (apart : ∀ name ∈ elementNames index parts, name ∉ first.map Prod.fst)
    (scope : Scope) :
    Holds (scope.bindAll (first ++ elementValues rest (elementNames index parts) items)) index parts items := by
  induction parts generalizing index items first with
  | nil => trivial
  | cons part others step =>
    cases items with
    | nil => simp at enough
    | cons item more =>
      have fresh := List.nodup_cons.mp distinct
      refine ⟨?_, ?_⟩
      · have notFirst := apart (elementName index part) List.mem_cons_self
        simp [Scope.bindAll_apply, List.lookup_append, lookup_eq_none_of_not_mem notFirst, elementNames,
          elementValues]
      · have shape : first ++ elementValues rest (elementNames index (part :: others)) (item :: more) =
            (first ++ [(elementName index part, item)]) ++
              elementValues rest (elementNames (index + 1) others) more := by
          simp [elementNames, elementValues]
        rw [shape]
        refine step fresh.2 (by simpa using enough) _ fun name member => ?_
        rw [List.map_append, List.mem_append, not_or]
        refine ⟨apart name (List.mem_cons_of_mem _ member), ?_⟩
        simp only [List.map_cons, List.map_nil, List.mem_singleton]
        rintro rfl
        exact fresh.1 member

/-- What is held under other names does not matter. -/
theorem Holds.congr {first second : Scope} {index : Nat} {parts : List ListPart} {items : List Value}
    (holds : Holds first index parts items)
    (same : ∀ name ∈ elementNames index parts, second name = first name) : Holds second index parts items := by
  induction parts generalizing index items with
  | nil => trivial
  | cons part rest step =>
    cases items with
    | nil => exact holds
    | cons item more =>
      exact ⟨(same _ List.mem_cons_self).trans holds.1,
        step holds.2 fun name member => same name (List.mem_cons_of_mem _ member)⟩

/-! ## Tests and fields -/

/-- **The tests ask what matching asks part by part.** -/
theorem allHold_eq {parts : List ListPart} (proper : Proper reading names parts) {index : Nat}
    {items : List Value} (elements : ∀ item ∈ items, item.Answers) {scope : Scope}
    (holds : Holds scope index parts items) (same : SameOutside names scope outer) :
    ElementTest.allHold? reading scope (elementTests index parts) =
      some (fitEach reading outer parts items) := by
  induction parts generalizing index items with
  | nil => rfl
  | cons part rest step =>
    cases items with
    | nil => exact holds.elim
    | cons item more =>
      have later := step proper.tail (fun other member => elements other (List.mem_cons_of_mem _ member))
        holds.2
      rw [elementTests, fitEach, partTest?, fitTest?_eq]
      cases anchored : anchor? part with
      | none => simpa using later
      | some anchor =>
        simp only [Option.map_some, Option.toList_some, List.singleton_append, ElementTest.allHold?, holds.1,
          Option.bind_some, accepts?_eq (elements item List.mem_cons_self), fits_congr proper anchored same,
          Option.all_some]
        cases anchor.fits reading outer item
        · rfl
        · simpa using later

/-- The statements that bind fields declare names of the pattern. -/
theorem mem_elementBindings {parts : List ListPart} {index : Nat} {name : String}
    (member : name ∈ declaredNames (elementBindings index parts)) : name ∈ patternNames parts := by
  induction parts generalizing index with
  | nil => simp [elementBindings, declaredNames] at member
  | cons part rest step =>
    have split : declaredNames (elementBindings index (part :: rest)) =
        declaredNames (partBindings part (elementName index part)) ++
          declaredNames (elementBindings (index + 1) rest) := List.flatMap_append
    rw [split] at member
    rcases List.mem_append.mp member with own | later
    · refine List.mem_append_left _ ?_
      cases anchored : (anchor? part).isSome with
      | true => rwa [declaredNames_partBindings anchored] at own
      | false =>
        cases part <;> simp_all [anchor?, partBindings, declaredNames]
    · exact List.mem_append_right _ (step later)

/-- They declare no name twice. -/
theorem nodup_elementBindings {parts : List ListPart} (distinct : (patternNames parts).Nodup) (index : Nat) :
    (declaredNames (elementBindings index parts)).Nodup := by
  induction parts generalizing index with
  | nil => simp [elementBindings, declaredNames]
  | cons part rest step =>
    rw [patternNames_cons, List.nodup_append] at distinct
    have split : declaredNames (elementBindings index (part :: rest)) =
        declaredNames (partBindings part (elementName index part)) ++
          declaredNames (elementBindings (index + 1) rest) := List.flatMap_append
    rw [split, List.nodup_append]
    cases anchored : (anchor? part).isSome with
    | true =>
      rw [declaredNames_partBindings anchored]
      refine ⟨distinct.1, step distinct.2.1 (index + 1), fun name own other later => ?_⟩
      exact distinct.2.2 name own other (mem_elementBindings later)
    | false =>
      have none_ : partBindings part (elementName index part) = [] := by
        cases part <;> simp_all [anchor?, partBindings]
      simpa [none_, declaredNames] using step distinct.2.1 (index + 1)

/-- No field is bound under the name of an element. -/
theorem elementNames_fresh {parts : List ListPart} (distinct : (patternNames parts).Nodup)
    (unmade : ∀ name ∈ patternNames parts, ¬ IsMade name) {index : Nat} {name : String}
    (member : name ∈ elementNames index parts) : name ∉ declaredNames (elementBindings index parts) := by
  induction parts generalizing index with
  | nil => simp [elementNames] at member
  | cons part rest step =>
    rw [patternNames_cons, List.nodup_append] at distinct
    have split : declaredNames (elementBindings index (part :: rest)) =
        declaredNames (partBindings part (elementName index part)) ++
          declaredNames (elementBindings (index + 1) rest) := List.flatMap_append
    have restUnmade : ∀ name ∈ patternNames rest, ¬ IsMade name :=
      fun name member => unmade name (List.mem_append_right _ member)
    rw [split, List.mem_append, not_or]
    cases anchored : (anchor? part).isSome with
    | true =>
      rw [declaredNames_partBindings anchored]
      rcases List.mem_cons.mp member with equal | later
      · rw [equal, elementName_anchor index anchored]
        exact ⟨fun own => unmade _ (List.mem_append_left _ own) (isMade_madeName .element index),
          fun later => restUnmade _ (mem_elementBindings later) (isMade_madeName .element index)⟩
      · refine ⟨fun own => ?_, step distinct.2.1 restUnmade later⟩
        rcases mem_elementNames later with listed | ⟨number, _, rfl⟩
        · exact distinct.2.2 name own name listed rfl
        · exact unmade _ (List.mem_append_left _ own) (isMade_madeName .element number)
    | false =>
      have none_ : partBindings part (elementName index part) = [] := by
        cases part <;> simp_all [anchor?, partBindings]
      refine ⟨by simp [none_, declaredNames], ?_⟩
      rcases List.mem_cons.mp member with rfl | later
      · intro later
        rcases elementName_cases index part with own | made
        · exact distinct.2.2 _ own _ (mem_elementBindings later) rfl
        · exact restUnmade _ (mem_elementBindings later) ⟨.element, index, made⟩
      · exact step distinct.2.1 restUnmade later

/-- **The fields are bound to those of the elements**, and the body is reached. -/
theorem run_elementBindings (work : ∀ statement ∈ body, statement.isWork) (some_ : body ≠ [])
    {parts : List ListPart} {index : Nat} {items : List Value} (distinct : (patternNames parts).Nodup)
    (unmade : ∀ name ∈ patternNames parts, ¬ IsMade name) {scope : Scope}
    (holds : Holds scope index parts items) (fit : fitEach reading outer parts items = true) :
    ∃ after, Statement.runEach reading scope (elementBindings index parts ++ body) = .reached after body ∧
      ∀ name, after name = ((eachValues parts items).lookup name).or (scope name) := by
  induction parts generalizing index items scope with
  | nil => exact ⟨scope, by rw [elementBindings, List.nil_append, runEach_body work some_], fun _ => rfl⟩
  | cons part rest step =>
    cases items with
    | nil => exact holds.elim
    | cons item more =>
      rw [patternNames_cons, List.nodup_append] at distinct
      simp only [fitEach, Bool.and_eq_true] at fit
      have restUnmade : ∀ name ∈ patternNames rest, ¬ IsMade name :=
        fun name member => unmade name (List.mem_append_right _ member)
      have restKeys := names_of_eachValues (length_of_fitEach fit.2)
      cases anchored : anchor? part with
      | some anchor =>
        have fits : anchor.fits reading outer item = true := by
          simpa [fitTest?_eq, anchored] using fit.1
        have kept : Holds (scope.bindAll (partValues item part)) (index + 1) rest more := by
          refine holds.2.congr fun name member => ?_
          have notOwn : name ∉ (partValues item part).map Prod.fst := by
            rw [names_of_partValues]
            intro own
            rcases mem_elementNames member with listed | ⟨later, _, rfl⟩
            · exact distinct.2.2 name own name listed rfl
            · exact unmade _ (List.mem_append_left _ own) (isMade_madeName .element later)
          rw [Scope.bindAll_apply, lookup_eq_none_of_not_mem notOwn]
          rfl
        obtain ⟨after, reached, values⟩ := step distinct.2.1 restUnmade kept fit.2
        refine ⟨after, ?_, fun name => ?_⟩
        · rw [elementBindings, List.append_assoc, runEach_partBindings anchored fits holds.1, reached]
        · rw [values name, Scope.bindAll_apply, eachValues, List.lookup_append]
          by_cases own : name ∈ boundNames part
          · have notLater : name ∉ (eachValues rest more).map Prod.fst := by
              rw [restKeys]
              exact fun later => distinct.2.2 name own name later rfl
            simp [lookup_eq_none_of_not_mem notLater]
          · have notOwn : name ∉ (partValues item part).map Prod.fst := by rwa [names_of_partValues]
            simp [lookup_eq_none_of_not_mem notOwn]
      | none =>
        obtain ⟨after, reached, values⟩ := step distinct.2.1 restUnmade holds.2 fit.2
        have none_ : partBindings part (elementName index part) = [] := by
          cases part <;> simp_all [anchor?, partBindings]
        refine ⟨after, by rw [elementBindings, none_, List.nil_append, reached], fun name => ?_⟩
        rw [values name, eachValues, List.lookup_append]
        cases part <;> simp only [anchor?, reduceCtorEq] at anchored
        case emptyList => simp [partValues]
        case name own =>
          by_cases equal : name = own
          · subst equal
            have notLater : name ∉ (eachValues rest more).map Prod.fst := by
              rw [restKeys]
              exact fun later => distinct.2.2 name (by simp) name later rfl
            simpa [lookup_eq_none_of_not_mem notLater, partValues, elementName] using holds.1
          · simp [partValues, List.lookup_cons, beq_eq_false_iff_ne.mpr equal]

/-! ## The whole destructuring -/

/-- What comes behind the destructuring: the tests, if there are some, and the fields. -/
def behind (parts : List ListPart) (body : List Statement) : List Statement :=
  let bound := elementBindings 0 parts ++ body
  match elementTests 0 parts with
  | [] => bound
  | tests => [.guarded (.elements tests) bound]

theorem positional_eq {list : String} {parts : List ListPart} {head : ListPart} {others : List ListPart}
    {rest : Option String} (split : splitLast parts = (head :: others, rest)) :
    positional list parts body =
      .bindElements (elementNames 0 (head :: others)) rest list :: behind (head :: others) body := by
  simp only [positional, split, List.isEmpty_cons, Bool.false_and, Bool.false_eq_true, if_false, behind]
  cases elementTests 0 (head :: others) <;> rfl

/-- Parts without tests have no fields. -/
theorem elementBindings_of_no_tests {parts : List ListPart} {index : Nat} (none_ : elementTests index parts = []) :
    elementBindings index parts = [] := by
  induction parts generalizing index with
  | nil => rfl
  | cons part rest step =>
    rw [elementTests, List.append_eq_nil_iff] at none_
    rw [elementBindings, step none_.2]
    cases part <;> simp_all [partTest?, anchor?, partBindings]

theorem declaredNames_behind (work : ∀ statement ∈ body, statement.isWork) (parts : List ListPart) :
    declaredNames (behind parts body) = [] := by
  unfold behind
  simp only
  split
  · rename_i none_
    rw [elementBindings_of_no_tests none_, List.nil_append, declaredNames_body work]
  · rfl

/-- The block declares the elements and the rest. -/
theorem declaredNames_positional (work : ∀ statement ∈ body, statement.isWork) {list : String}
    {parts : List ListPart} {head : ListPart} {others : List ListPart} {rest : Option String}
    (split : splitLast parts = (head :: others, rest)) :
    declaredNames (positional list parts body) = elementNames 0 (head :: others) ++ rest.toList := by
  have none_ := declaredNames_behind work (head :: others)
  simp only [declaredNames] at none_ ⊢
  rw [positional_eq split, List.flatMap_cons, none_, List.append_nil]
  rfl

/-- **The tests are made, and behind them the fields are bound.** -/
theorem run_behind (work : ∀ statement ∈ body, statement.isWork) (some_ : body ≠ []) {parts : List ListPart}
    (proper : Proper reading names parts) {items : List Value} (elements : ∀ item ∈ items, item.Answers)
    {scope : Scope} (holds : Holds scope 0 parts items) (same : SameOutside names scope outer) :
    Ends scope body (Statement.runEach reading scope (behind parts body))
      (if fitEach reading outer parts items then some (eachValues parts items) else none) := by
  have bound : declaredNames (elementBindings 0 parts ++ body) = declaredNames (elementBindings 0 parts) := by
    have none_ := declaredNames_body work
    simp only [declaredNames] at none_ ⊢
    rw [List.flatMap_append, none_, List.append_nil]
  have tested := allHold_eq proper elements holds same
  unfold behind
  simp only
  split
  · rename_i none_
    have fit : fitEach reading outer parts items = true := by
      simpa [none_, ElementTest.allHold?] using tested.symm
    obtain ⟨after, reached, values⟩ :=
      run_elementBindings work some_ proper.distinct proper.unmade holds fit
    rw [reached, if_pos fit]
    exact ⟨after, rfl, fun name _ => values name⟩
  · cases fit : fitEach reading outer parts items with
    | false =>
      rw [runEach_guarded_false (by rw [Condition.holds?, tested, fit])]
      exact ⟨scope, rfl⟩
    | true =>
      have distinct : (declaredNames (elementBindings 0 parts ++ body)).Nodup := by
        rw [bound]
        exact nodup_elementBindings proper.distinct 0
      have kept : Holds (scope.hide (declaredNames (elementBindings 0 parts ++ body))) 0 parts items := by
        refine holds.congr fun name member => Scope.hide_of_not_mem ?_ scope
        rw [bound]
        exact elementNames_fresh proper.distinct proper.unmade member
      obtain ⟨after, reached, values⟩ :=
        run_elementBindings work some_ proper.distinct proper.unmade kept fit
      rw [runEach_guarded_true (by rw [Condition.holds?, tested, fit]) distinct, reached, if_pos rfl]
      refine ⟨after, rfl, fun name _ => ?_⟩
      rw [values name]
      by_cases member : name ∈ patternNames parts
      · rw [← names_of_eachValues (length_of_fitEach fit)] at member
        obtain ⟨value, found⟩ := lookup_ne_none_of_mem member
        simp [found]
      · rw [Scope.hide_of_not_mem fun declared => member (mem_elementBindings (bound ▸ declared))]

/-- The parts in front of others are in order when all are. -/
theorem Proper.front {first last : List ListPart} (proper : Proper reading names (first ++ last)) :
    Proper reading names first where
  closed := by
    have closed := proper.closed
    clear proper
    induction first with
    | nil => trivial
    | cons part rest step =>
      exact ⟨fun equal => (List.append_eq_nil_iff.mp (closed.1 equal)).1, step closed.2⟩
  distinct := by
    have distinct := proper.distinct
    rw [patternNames, List.flatMap_append, List.nodup_append] at distinct
    exact distinct.1
  listed name member := proper.listed name (by
    rw [patternNames, List.flatMap_append]
    exact List.mem_append_left _ member)
  unmade name member := proper.unmade name (by
    rw [patternNames, List.flatMap_append]
    exact List.mem_append_left _ member)
  steady text member := proper.steady text (List.mem_append_left _ member)

/-- The destructuring names no two of the elements and the rest alike, if the pattern does not. -/
theorem nodup_elementNames_rest {parts : List ListPart} {rest : Option String}
    (distinct : (patternNames parts ++ rest.toList).Nodup)
    (unmade : ∀ name ∈ patternNames parts ++ rest.toList, ¬ IsMade name) :
    (elementNames 0 parts ++ rest.toList).Nodup := by
  have apart := List.nodup_append.mp distinct
  refine List.nodup_append.mpr ⟨nodup_elementNames apart.1
    (fun name member => unmade name (List.mem_append_left _ member)) 0, apart.2.1, ?_⟩
  rintro name element _ other rfl
  exact apart.2.2 name (shown_of_mem_elementNames element (unmade name (List.mem_append_right _ other)))
    name other rfl

/-- With the fields bound behind the destructuring, the parts and the rest have bound their names and nothing else. -/
theorem extended_elementValues {parts : List ListPart} {rest : Option String} {items : List Value}
    (enough : parts.length ≤ items.length) {before after : Scope}
    (extended : Extended ((before.hide (elementNames 0 parts ++ rest.toList)).bindAll
      (elementValues rest (elementNames 0 parts) items)) (eachValues parts items) after) :
    Extended before
      (eachValues parts items ++ rest.toList.map fun name => (name, .list (items.drop parts.length))) after := by
  intro name notMade
  obtain ⟨named, namedKeys, shape⟩ := elementValues_eq rest parts 0 enough
  rw [extended name notMade, Scope.bindAll_apply, shape, List.lookup_append, List.lookup_append]
  by_cases own : name ∈ patternNames parts
  · rw [← names_of_eachValues enough] at own
    obtain ⟨value, found⟩ := lookup_ne_none_of_mem own
    simp [found]
  have notElement : name ∉ elementNames 0 parts := fun element => own (shown_of_mem_elementNames element notMade)
  have notNamed : name ∉ named.map Prod.fst := namedKeys ▸ notElement
  have leftKeys : (rest.toList.map fun name => (name, Value.list (items.drop parts.length))).map Prod.fst =
      rest.toList := by
    simp [Function.comp_def]
  rw [lookup_eq_none_of_not_mem notNamed, Option.none_or, Option.or_assoc]
  congr 1
  by_cases other : name ∈ rest.toList
  · rw [← leftKeys] at other
    obtain ⟨value, found⟩ := lookup_ne_none_of_mem other
    simp [found]
  · rw [Scope.hide_of_not_mem]
    rw [List.mem_append, not_or]
    exact ⟨notElement, other⟩

/-- **A pattern whose only gap may be its last part**, given a list with an element for each part before it. -/
theorem run_positional (work : ∀ statement ∈ body, statement.isWork) (some_ : body ≠ [])
    {head : ListPart} {others last : List ListPart} {rest : Option String} {scope : Scope} {list : String}
    {items : List Value} (split : splitLast (head :: others ++ last) = (head :: others, rest))
    (shown : head ≠ .emptyList) (anchored : ∀ part ∈ others, (anchor? part).isSome)
    (lastNames : patternNames last = rest.toList)
    (proper : Proper reading names (head :: others ++ last)) (enough : (head :: others).length ≤ items.length)
    (lastMatched : matchLater reading scope last (items.drop (head :: others).length) =
      some (rest.toList.map fun name => (name, .list (items.drop (head :: others).length))))
    (elements : ∀ item ∈ items, item.Answers) (held : scope list = some (.list items))
    (unhidden : list ∉ declaredNames (positional list (head :: others ++ last) body)) :
    (declaredNames (positional list (head :: others ++ last) body)).Nodup ∧
      Ends scope body
        ((Statement.runEach reading (scope.hide (declaredNames (positional list (head :: others ++ last) body)))
          (positional list (head :: others ++ last) body)).leaving scope)
        (matchParts reading scope (head :: others ++ last) items) := by
  have same : SameOutside names scope scope := fun _ _ _ => rfl
  have lists : patternNames (head :: others ++ last) = patternNames (head :: others) ++ rest.toList := by
    rw [← lastNames, patternNames, List.flatMap_append]
    rfl
  have opened : positional list (head :: others ++ last) body =
      .bindElements (elementNames 0 (head :: others)) rest list :: behind (head :: others) body :=
    positional_eq split
  rw [declaredNames_positional work split] at unhidden ⊢
  set parts := head :: others
  set hidden := elementNames 0 parts ++ rest.toList with hidden_eq
  set values := elementValues rest (elementNames 0 parts) items with values_eq
  have distinct : hidden.Nodup := nodup_elementNames_rest (lists ▸ proper.distinct) (lists ▸ proper.unmade)
  have valueKeys : values.map Prod.fst = hidden := names_of_elementValues rest _ items
  have bound : Statement.bindings? reading (scope.hide hidden)
      (.bindElements (elementNames 0 parts) rest list) = some values := by
    simp [Statement.bindings?, Scope.items?, Scope.hide_of_not_mem unhidden, held, Value.items?, values_eq]
  have hides : ∀ name ∈ hidden, name ∈ names ∨ IsMade name := fun name member =>
    or_iff_not_imp_right.mpr fun notMade => proper.listed name (lists ▸ List.mem_append.mpr
      ((List.mem_append.mp member).imp_left fun element => shown_of_mem_elementNames element notMade))
  have holds : Holds ((scope.hide hidden).bindAll values) 0 parts items :=
    holds_elements (List.nodup_append.mp distinct).1 enough [] (by simp) (scope.hide hidden)
  have ends := run_behind work some_ proper.front elements holds
    (same.block hides fun name member => hides name (valueKeys ▸ member))
  refine ⟨distinct, ?_⟩
  rw [opened, runEach_cons bound, matchParts_each shown anchored, lastMatched]
  cases fit : fitEach reading scope parts items with
  | false =>
    rw [fit] at ends
    exact ends.leave
  | true =>
    rw [fit] at ends
    obtain ⟨final, reached, extended⟩ := ends
    exact ⟨final, by rw [reached]; rfl, extended_elementValues enough extended⟩

end Positional

end DerwLang.Ecma
