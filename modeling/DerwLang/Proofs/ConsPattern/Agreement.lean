/-
**Where the statements for a list pattern and its Elm text agree.**

The statements take a name after the first part for a run of elements when a tag or a text follows, and do not look at what
is left after a last tag or text. An Elm operand takes one element, and the last one all that are left. So the two agree
exactly when no name but the first stands before a tag or a text, and the last part is a name or `[]` (`Spread`):

* `matchCons_eq_matchParts`: for spread patterns the operands match what the parts match, and bind the same;
* `matchCons_sample`: any other pattern matches its sample, a list with one element for every part but the names before
  tags and texts, while the operands do not.
-/

import DerwLang.Proofs.Accepted.Type
import DerwLang.Proofs.ConsPattern.Text
import DerwLang.Proofs.ListPattern.Correct

namespace DerwLang.Elm

open Ecma Grammar

/-! ## Spread patterns -/

/-- What is asked of the parts after the first. -/
def SpreadLater : List ListPart → Prop
  | [] => False
  | [last] => anchor? last = none
  | .name _ :: part :: rest => anchor? part = none ∧ SpreadLater (part :: rest)
  | _ :: part :: rest => SpreadLater (part :: rest)

/-- Every part takes one element, but the last one all that are left: no name but the first stands before a tag or a text,
and the last part is neither. -/
def Spread (parts : List ListPart) : Prop :=
  SpreadLater parts.tail

/-- The bindings without that of `_`. -/
def known (bindings : List (String × Value)) : List (String × Value) :=
  bindings.filter (·.1 != "_")

/-- The run ends as a match says: past the statements if there is none, and else at the body with the bindings. Names that
the lowering makes and `_` are left out. -/
def Agrees (before : Scope) (body : List Statement) (outcome : Outcome) : Option (List (String × Value)) → Prop
  | none => ∃ after, outcome = .passed after
  | some bindings => ∃ after, outcome = .reached after body ∧
      ∀ name, ¬ IsMade name → name ≠ "_" → after name = (bindings.lookup name).or (before name)

/-- On every list, the statements for the parts end as the operands match it. The list is the value of a variable. -/
def AgreeOnLists (reading : Reading) (list : String) (parts : List ListPart) (operands : List Operand) : Prop :=
  ∀ (scope : Scope) (items : List Value) (body : List Statement),
    scope list = some (.list items) → (∀ item ∈ items, item.Answers) →
    (∀ statement ∈ body, statement.isWork) → body ≠ [] →
    Agrees scope body (Statement.runEach reading scope (listPattern list parts body)) (matchCons reading operands items)

/-! ## Names -/

theorem ne_underscore_of_isVariable {name : String} (variable_ : isVariable name = true) : name ≠ "_" := by
  rintro rfl
  exact absurd variable_ (by decide)

/-- Names in Elm do not start with an underscore. -/
theorem head_of_isVariable {name : String} (variable_ : isVariable name = true) : name.toList.head? ≠ some '_' := by
  intro start
  have letter : Text.isAlphabetic '_' = true := by
    simp only [isVariable, start, Option.any_some, Bool.and_eq_true] at variable_
    exact variable_.1.1.1
  exact absurd letter (by decide)

/-- The names of the part are `_` or names in Elm. -/
theorem name_of_isNamed {part : ListPart} (named : IsNamed part) :
    ∀ name ∈ boundNames part, name = "_" ∨ isVariable name = true := by
  cases part with
  | name own => exact fun name member => List.mem_singleton.mp member ▸ named
  | tag pattern => exact fun name member => .inr (named.2 name member)
  | _ => simp [boundNames]

section Matching

variable {reading : Reading} {scope : Scope}

/-! ## One element for one part -/

/-- An operand matches what its part fits, and binds the same. -/
theorem bindings?_operandOf (scope : Scope) {part : ListPart} (named : IsNamed part) (shown : part ≠ .emptyList)
    (item : Value) :
    (operandOf part).bindings? reading item =
      if (fitTest? reading scope part).all (· item) then some (known (partValues item part)) else none := by
  cases part with
  | emptyList => exact absurd rfl shown
  | formatString text => exact named.elim
  | string text => rfl
  | name name =>
    by_cases anything : name = "_" <;>
      simp [operandOf, Operand.bindings?, fitTest?, partValues, known, anything]
  | tag pattern =>
    have all : known (partValues item (.tag pattern)) = partValues item (.tag pattern) := by
      refine List.filter_eq_self.mpr ?_
      simp only [partValues, List.forall_mem_map, bne_iff_ne]
      exact fun field member => ne_underscore_of_isVariable (named.2 field member)
    rw [all]
    rfl

/-- What the first of several parts takes when it takes one element. -/
def takeOne (reading : Reading) (scope : Scope) (part : ListPart) (rest : List ListPart) (item : Value)
    (items : List Value) : Option (List (String × Value)) :=
  if (fitTest? reading scope part).all (· item) then
    (matchLater reading scope rest items).map (partValues item part ++ ·)
  else none

theorem matchLater_nil {part next : ListPart} {more : List ListPart} (shown : part ≠ .emptyList)
    (free : isName part = true → anchor? next = none) : matchLater reading scope (part :: next :: more) [] = none := by
  cases part with
  | emptyList => exact absurd rfl shown
  | name name => exact matchLater_single_nil (free rfl) more
  | _ => rfl

/-- A part takes one element, unless it is a name before a tag or a text. -/
theorem matchLater_cons {part next : ListPart} {more : List ListPart} (shown : part ≠ .emptyList)
    (free : isName part = true → anchor? next = none) (item : Value) (items : List Value) :
    matchLater reading scope (part :: next :: more) (item :: items) =
      takeOne reading scope part (next :: more) item items := by
  cases part with
  | emptyList => exact absurd rfl shown
  | name name => exact matchLater_single (free rfl) more item items
  | _ => rfl

theorem matchParts_nil {part next : ListPart} {more : List ListPart} (shown : part ≠ .emptyList) :
    matchParts reading scope (part :: next :: more) [] = none := by
  cases part with
  | emptyList => exact absurd rfl shown
  | _ => rfl

/-- The first part takes one element. -/
theorem matchParts_cons {part next : ListPart} {more : List ListPart} (shown : part ≠ .emptyList) (item : Value)
    (items : List Value) :
    matchParts reading scope (part :: next :: more) (item :: items) =
      takeOne reading scope part (next :: more) item items := by
  cases part with
  | emptyList => exact absurd rfl shown
  | _ => rfl

/-! ## Spread patterns agree -/

/-- Operands that agree with later parts do so with one more part in front that takes one element. -/
theorem matchCons_cons {part next : ListPart} {more : List ListPart} (named : IsNamed part) (shown : part ≠ .emptyList)
    (item : Value) {items : List Value}
    (later : matchCons reading ((next :: more).map operandOf) items =
      (matchLater reading scope (next :: more) items).map known) :
    matchCons reading ((part :: next :: more).map operandOf) (item :: items) =
      (takeOne reading scope part (next :: more) item items).map known := by
  rw [List.map_cons] at later
  rw [List.map_cons, List.map_cons, matchCons, later, bindings?_operandOf scope named shown, takeOne]
  split
  · cases matchLater reading scope (next :: more) items with
    | none => rfl
    | some others => simp [known]
  · rfl

theorem matchCons_later {parts : List ListPart} (spread : SpreadLater parts) (closed : ClosedAtEnd parts)
    (named : ∀ part ∈ parts, IsNamed part) (items : List Value) :
    matchCons reading (parts.map operandOf) items = (matchLater reading scope parts items).map known := by
  induction parts generalizing items with
  | nil => exact spread.elim
  | cons part rest step =>
    rw [List.forall_mem_cons] at named
    cases rest with
    | nil =>
      cases part with
      | emptyList => cases items <;> rfl
      | name name =>
        by_cases anything : name = "_" <;>
          simp [operandOf, matchCons, Operand.bindings?, matchLater, known, anything]
      | _ => simp [SpreadLater, anchor?] at spread
    | cons next more =>
      have shown : part ≠ .emptyList := fun same => absurd (closed.1 same) (List.cons_ne_nil next more)
      have free : isName part = true → anchor? next = none := by
        cases part with
        | name name => exact fun _ => spread.1
        | _ => simp [isName]
      have inner : SpreadLater (next :: more) := by
        cases part with
        | name name => exact spread.2
        | _ => exact spread
      cases items with
      | nil => rw [matchLater_nil shown free]; rfl
      | cons item others =>
        rw [matchLater_cons shown free]
        exact matchCons_cons named.1 shown item (step inner closed.2 named.2 others)

/-- **For spread patterns the operands match what the parts match**, and bind the same but for `_`. -/
theorem matchCons_eq_matchParts {parts : List ListPart} (several : 2 ≤ parts.length) (spread : Spread parts)
    (closed : ClosedAtEnd parts) (named : ∀ part ∈ parts, IsNamed part) (items : List Value) :
    matchCons reading (parts.map operandOf) items = (matchParts reading scope parts items).map known := by
  obtain ⟨part, next, more, rfl, shown⟩ := closed.several several
  rw [List.forall_mem_cons] at named
  cases items with
  | nil => rw [matchParts_nil shown]; rfl
  | cons item others =>
    rw [matchParts_cons shown]
    exact matchCons_cons named.1 shown item (matchCons_later spread closed.2 named.2 others)

/-! ## Other patterns do not -/

/-- An element that fits a part. -/
def sampleElement (reading : Reading) : ListPart → Value
  | .tag pattern => .object fun _ => .text pattern.tag
  | .string text => .text (reading.quoted text)
  | _ => .text ""

/-- One element for each of the later parts, but for `[]`, a last name, and names before tags and texts. -/
def sampleLater (reading : Reading) : List ListPart → List Value
  | [] => []
  | .emptyList :: _ => []
  | [.name _] => []
  | .name _ :: part :: rest =>
    if (anchor? part).isSome then sampleLater reading (part :: rest)
    else .text "" :: sampleLater reading (part :: rest)
  | part :: rest => sampleElement reading part :: sampleLater reading rest

/-- A list that a pattern matches. -/
def sample (reading : Reading) : List ListPart → List Value
  | [] => []
  | part :: rest => sampleElement reading part :: sampleLater reading rest

theorem sampleElement_fits (reading : Reading) (scope : Scope) {part : ListPart} (named : IsNamed part) :
    (fitTest? reading scope part).all (· (sampleElement reading part)) = true := by
  cases part with
  | formatString text => exact named.elim
  | _ => simp [fitTest?, sampleElement, Value.hasTag, Value.isText]

theorem isElement_sampleElement (part : ListPart) : (sampleElement reading part).IsElement := by
  cases part <;> simp [sampleElement, Value.IsElement]

theorem isElement_sampleLater (parts : List ListPart) : ∀ item ∈ sampleLater reading parts, item.IsElement := by
  fun_induction sampleLater reading parts with
  | case1 => simp
  | case2 => simp
  | case3 => simp
  | case4 name part rest anchored step => exact step
  | case5 name part rest free step => exact List.forall_mem_cons.mpr ⟨trivial, step⟩
  | case6 part rest shown single more step =>
    exact List.forall_mem_cons.mpr ⟨isElement_sampleElement part, step⟩

/-- The elements of a sample are tagged objects and texts. -/
theorem isElement_sample (parts : List ListPart) : ∀ item ∈ sample reading parts, item.IsElement := by
  cases parts with
  | nil => simp [sample]
  | cons part rest => exact List.forall_mem_cons.mpr ⟨isElement_sampleElement part, isElement_sampleLater rest⟩

/-- What is neither `[]` nor a name is a tag or a text. -/
theorem anchored_of_other {part : ListPart} {rest : List ListPart} (shown : part = .emptyList → False)
    (single : ∀ name, part = .name name → rest = [] → False)
    (more : ∀ name next others, part = .name name → rest = next :: others → False) :
    (anchor? part).isSome = true := by
  cases part with
  | emptyList => exact (shown rfl).elim
  | name name =>
    cases rest with
    | nil => exact (single name rfl rfl).elim
    | cons next others => exact (more name next others rfl rfl).elim
  | _ => rfl

theorem sampleLater_anchor {part : ListPart} (anchored : (anchor? part).isSome = true) (rest : List ListPart) :
    sampleLater reading (part :: rest) = sampleElement reading part :: sampleLater reading rest := by
  cases part with
  | name name => simp [anchor?] at anchored
  | emptyList => simp [anchor?] at anchored
  | _ => rw [sampleLater] <;> simp

/-- A name before a tag or a text takes no element of a list that starts with one that fits. -/
theorem isSome_matchLater_gap {name : String} {part : ListPart} {anchor : Anchor} (found : anchor? part = some anchor)
    {rest : List ListPart} {item : Value} {items : List Value}
    (matched : (matchLater reading scope (part :: rest) (item :: items)).isSome = true) :
    (matchLater reading scope (.name name :: part :: rest) (item :: items)).isSome = true := by
  rw [matchLater_anchor found] at matched
  split at matched
  · rename_i fits
    rw [matchLater_gap found, cutAtFirst, if_pos fits]
    simpa using matched
  · simp at matched

/-- Later parts match their sample. -/
theorem matchLater_sample {parts : List ListPart} (closed : ClosedAtEnd parts) (named : ∀ part ∈ parts, IsNamed part) :
    (matchLater reading scope parts (sampleLater reading parts)).isSome = true := by
  fun_induction sampleLater reading parts with
  | case1 => rfl
  | case2 => rfl
  | case3 => rfl
  | case4 name part rest anchored step =>
    obtain ⟨anchor, found⟩ := Option.isSome_iff_exists.mp anchored
    have later := step closed.2 (List.forall_mem_cons.mp named).2
    rw [sampleLater_anchor anchored] at later ⊢
    exact isSome_matchLater_gap found later
  | case5 name part rest free step =>
    have none_ : anchor? part = none := by simpa using free
    rw [matchLater_cons (by simp) fun _ => none_, takeOne, if_pos (by rfl), Option.isSome_map]
    exact step closed.2 (List.forall_mem_cons.mp named).2
  | case6 part rest shown single more step =>
    rw [List.forall_mem_cons] at named
    obtain ⟨anchor, found⟩ := Option.isSome_iff_exists.mp (anchored_of_other shown single more)
    have fits : anchor.fits reading scope (sampleElement reading part) = true := by
      simpa [fitTest?_eq, found] using sampleElement_fits reading scope named.1
    rw [matchLater_anchor found, if_pos fits, Option.isSome_map]
    exact step closed.2 named.2

/-- **A pattern matches its sample.** -/
theorem matchParts_sample {parts : List ListPart} (several : 2 ≤ parts.length) (closed : ClosedAtEnd parts)
    (named : ∀ part ∈ parts, IsNamed part) : (matchParts reading scope parts (sample reading parts)).isSome = true := by
  obtain ⟨part, next, more, rfl, shown⟩ := closed.several several
  rw [List.forall_mem_cons] at named
  rw [sample, matchParts_cons shown, takeOne, if_pos (sampleElement_fits reading scope named.1), Option.isSome_map]
  exact matchLater_sample closed.2 named.2

/-- All operands but the last take an element. -/
theorem length_of_matchCons {operands : List Operand} {items : List Value} {bindings : List (String × Value)}
    (matched : matchCons reading operands items = some bindings) : operands.length ≤ items.length + 1 := by
  fun_induction matchCons reading operands items generalizing bindings with
  | case1 => simp at matched
  | case2 => simp
  | case3 => simp at matched
  | case4 first second rest item items step =>
    obtain ⟨own, -, matched⟩ := Option.bind_eq_some_iff.mp matched
    obtain ⟨others, found, -⟩ := Option.bind_eq_some_iff.mp matched
    have := step found
    simp only [List.length_cons] at this ⊢
    omega

/-- A last tag or text matches no list. -/
theorem last_of_matchCons {operands : List Operand} {items : List Value} {bindings : List (String × Value)}
    (matched : matchCons reading operands items = some bindings) :
    ∃ last rest, operands.getLast? = some last ∧ (last.bindings? reading (.list rest)).isSome = true := by
  fun_induction matchCons reading operands items generalizing bindings with
  | case1 => simp at matched
  | case2 last items => exact ⟨last, items, rfl, by rw [matched]; rfl⟩
  | case3 => simp at matched
  | case4 first second rest item items step =>
    obtain ⟨own, -, matched⟩ := Option.bind_eq_some_iff.mp matched
    obtain ⟨others, found, -⟩ := Option.bind_eq_some_iff.mp matched
    rw [List.getLast?_cons_cons]
    exact step found

/-- A sample has an element at most for every part but the last, if that is a name or `[]`, and is too short for the
operands of parts that are not spread. -/
theorem length_sampleLater {parts : List ListPart} (some_ : parts ≠ []) (closed : ClosedAtEnd parts)
    (last : ∀ part ∈ parts.getLast?, anchor? part = none) :
    (sampleLater reading parts).length < parts.length ∧
      (¬ SpreadLater parts → (sampleLater reading parts).length + 1 < parts.length) := by
  fun_induction sampleLater reading parts with
  | case1 => exact absurd rfl some_
  | case2 rest =>
    obtain rfl := closed.1 rfl
    simp [SpreadLater, anchor?]
  | case3 name => simp [SpreadLater, anchor?]
  | case4 name part rest anchored step =>
    have short := (step (by simp) closed.2 (by simpa using last)).1
    simp only [List.length_cons] at short ⊢
    exact ⟨by omega, fun _ => by omega⟩
  | case5 name part rest free step =>
    obtain ⟨short, shorter⟩ := step (by simp) closed.2 (by simpa using last)
    have none_ : anchor? part = none := by simpa using free
    simp only [List.length_cons] at short shorter ⊢
    refine ⟨by omega, fun notSpread => ?_⟩
    have := shorter fun spread => notSpread ⟨none_, spread⟩
    omega
  | case6 part rest shown single more step =>
    have anchored := anchored_of_other shown single more
    cases rest with
    | nil =>
      have none_ : anchor? part = none := last part rfl
      simp [none_] at anchored
    | cons next others =>
      obtain ⟨short, shorter⟩ := step (List.cons_ne_nil next others) closed.2 (by simpa using last)
      simp only [List.length_cons] at short shorter ⊢
      refine ⟨by omega, fun notSpread => ?_⟩
      have := shorter fun spread => notSpread (by cases part <;> simp_all [SpreadLater, anchor?])
      omega

/-- A part of a pattern that is no name and not `[]` matches no whole list. -/
theorem anchor?_of_bindings? {part : ListPart} {items : List Value}
    (matched : ((operandOf part).bindings? reading (.list items)).isSome = true) : anchor? part = none := by
  cases part with
  | string text => simp [operandOf, Operand.bindings?, Value.isText] at matched
  | formatString text => simp [operandOf, Operand.bindings?, Value.isText] at matched
  | tag pattern => simp [operandOf, Operand.bindings?, Value.hasTag] at matched
  | _ => rfl

/-- **The operands of a pattern that is not spread do not match its sample.** -/
theorem matchCons_sample {parts : List ListPart} (several : 2 ≤ parts.length) (closed : ClosedAtEnd parts)
    (notSpread : ¬ Spread parts) : matchCons reading (parts.map operandOf) (sample reading parts) = none := by
  obtain ⟨part, next, more, rfl, -⟩ := closed.several several
  cases matched : matchCons reading ((part :: next :: more).map operandOf) (sample reading (part :: next :: more)) with
  | none => rfl
  | some bindings =>
    have last : ∀ last ∈ (next :: more).getLast?, anchor? last = none := by
      intro last isLast
      obtain ⟨operand, rest, found, fits⟩ := last_of_matchCons matched
      rw [List.getLast?_map, List.getLast?_cons_cons, Option.mem_def.mp isLast, Option.map_some, Option.some.injEq] at found
      exact anchor?_of_bindings? (found ▸ fits)
    have short : (sampleLater reading (next :: more)).length + 1 < (next :: more).length :=
      (length_sampleLater (List.cons_ne_nil next more) closed.2 last).2 notSpread
    have long := length_of_matchCons matched
    rw [List.length_map, sample] at long
    simp only [List.length_cons] at short long
    omega

end Matching

/-! ## Agreement -/

theorem besideList_subset (parts : List ListPart) : ∀ name ∈ besideList parts, name ∈ patternNames parts := by
  intro name member
  rcases List.mem_append.mp member with first | last
  · cases parts with
    | nil => simp [firstNames] at first
    | cons part rest =>
      cases part <;> simp_all [firstNames]
  · split at last
    · simp only [patternNames, List.mem_flatMap] at last ⊢
      obtain ⟨part, isLast, bound⟩ := last
      exact ⟨part, List.mem_of_getLast? (Option.mem_toList.mp isLast), bound⟩
    · simp at last

/-- The name `_` is not one that lowering makes: those end in a number. -/
theorem not_isMade_underscore : ¬ IsMade "_" := by
  rintro ⟨role, index, same⟩
  have digits : 0 < (Nat.toDigits 10 index).length := List.length_pos_iff.mpr Nat.toDigits_ne_nil
  have start : 0 < role.start.toList.length := by cases role <;> decide
  have lengths := congrArg (fun text => text.toList.length) same
  simp only [madeName, String.toList_append, List.length_append, Nat.toString_eq_repr, Nat.toList_repr] at lengths
  have one : "_".toList.length = 1 := by decide
  omega

/-- Names other than `_` have the values that they have among all bindings. -/
theorem lookup_known {name : String} (other : name ≠ "_") (bindings : List (String × Value)) :
    (known bindings).lookup name = bindings.lookup name := by
  induction bindings with
  | nil => rfl
  | cons binding rest step =>
    obtain ⟨own, value⟩ := binding
    by_cases anything : own = "_"
    · subst anything
      have differs : (name == "_") = false := by simpa using other
      simpa [known, List.lookup_cons, differs] using step
    · by_cases same : name = own
      · simp [known, anything, same]
      · have differs : (name == own) = false := by simpa using same
        simpa [known, anything, List.lookup_cons, differs] using step

/-- A run that ends as the matching of the parts does so but for `_`. -/
theorem agrees_of_ends {before : Scope} {body : List Statement} {outcome : Outcome}
    {bindings : Option (List (String × Value))} (ends : Ends before body outcome bindings) :
    Agrees before body outcome (bindings.map known) := by
  cases bindings with
  | none => exact ends
  | some bindings =>
    obtain ⟨after, reached, extended⟩ := ends
    refine ⟨after, reached, fun name notMade other => ?_⟩
    rw [extended name notMade, lookup_known other]

/-- The pattern is one that the lowering takes apart. -/
theorem proper_of_isNamed (reading : Reading) {parts : List ListPart} (closed : ClosedAtEnd parts)
    (distinct : (patternNames parts).Nodup) (named : ∀ part ∈ parts, IsNamed part) :
    Proper reading (patternNames parts) parts where
  closed := closed
  distinct := distinct
  listed _ member := member
  unmade name member made := by
    obtain ⟨part, isPart, bound⟩ := List.mem_flatMap.mp member
    rcases name_of_isNamed (named part isPart) name bound with rfl | variable_
    · exact not_isMade_underscore made
    · exact head_of_isVariable variable_ made.underscore
  steady text member := (named _ member).elim

/-- The name of the value that a case looks at is no name in Elm. -/
theorem candidate_not_bound (text : String) (count : Nat) {parts : List ListPart} (named : ∀ part ∈ parts, IsNamed part) :
    TempNames.candidate text count ∉ patternNames parts := by
  intro member
  obtain ⟨part, isPart, bound⟩ := List.mem_flatMap.mp member
  rcases name_of_isNamed (named part isPart) _ bound with same | variable_
  · have lengths := congrArg (fun text => text.toList.take 2) same
    cases count <;> simp [TempNames.candidate] at lengths
  · refine head_of_isVariable variable_ ?_
    cases count <;> simp [TempNames.candidate]

/-- The tokens of `first :: A { x } :: "b" :: rest`. -/
def spreadWindow : Window :=
  ⟨1, [⟨.identifier, "first", 1, 1⟩, ⟨.operator .cons, "::", 1, 7⟩, ⟨.identifier, "A", 1, 10⟩, ⟨.openCurly, "\x7b", 1, 12⟩,
    ⟨.identifier, "x", 1, 14⟩, ⟨.closeCurly, "\x7d", 1, 16⟩, ⟨.operator .cons, "::", 1, 18⟩, ⟨.string, "\"b\"", 1, 21⟩,
    ⟨.operator .cons, "::", 1, 25⟩, ⟨.identifier, "rest", 1, 28⟩]⟩

/-- The parts of `first :: A { x } :: "b" :: rest`. -/
def spreadParts : List ListPart :=
  [.name "first", .tag ⟨"A", ["x"]⟩, .string "b", .name "rest"]

/-- The tokens of `"a" :: "b"`. -/
def textsWindow : Window :=
  ⟨1, [⟨.string, "\"a\"", 1, 1⟩, ⟨.operator .cons, "::", 1, 5⟩, ⟨.string, "\"b\"", 1, 8⟩]⟩

end DerwLang.Elm
