/-
**Agreement of types.**

Types agree when they differ only where one of them has `any` or a variable. Every type agrees with itself, and agreement goes
both ways, but it does not carry over: `List number` and `List string` agree with `List any` and not with each other.

* `isWhole_iff`: agreement carries over through a type just in case there is no `any` and no variable anywhere in it;
* `eq_of_agree`: whole types that agree are one type.
-/

import DerwLang.Typing.Inference

namespace DerwLang.Ty

/-! ## Types of which something is known -/

theorem isAny_iff {type : Ty} : type.isAny = true ↔ type = .any := by
  constructor
  · intro isAny
    match type, isAny with
    | .named name [], isAny => rw [beq_iff_eq.mp isAny]; rfl
  · rintro rfl
    rfl

theorem isNumber_iff {type : Ty} : type.isNumber = true ↔ type = .number := by
  constructor
  · intro isNumber
    match type, isNumber with
    | .named name [], isNumber => rw [beq_iff_eq.mp isNumber]; rfl
  · rintro rfl
    rfl

theorem isWildcard_variable (name : String) : (Ty.variable name).isWildcard = true :=
  rfl

theorem isWildcard_function (parts : List Ty) : (Ty.function parts).isWildcard = false :=
  rfl

theorem isWildcard_list (element : Ty) : (Ty.list element).isWildcard = false :=
  rfl

theorem isWildcard_named_cons (name : String) (argument : Ty) (rest : List Ty) :
    (Ty.named name (argument :: rest)).isWildcard = false :=
  rfl

theorem listElement?_eq_some {type element : Ty} : type.listElement? = some element ↔ type = .list element := by
  constructor
  · intro found
    match type, found with
    | .named name [only], found =>
      rw [listElement?] at found
      split at found
      · next isList =>
        obtain rfl := Option.some.inj found
        rw [beq_iff_eq.mp isList]
        rfl
      · cases found
  · rintro rfl
    rfl

/-! ## Agreement -/

theorem agree_of_isWildcard_left {first : Ty} (wild : first.isWildcard = true) (second : Ty) :
    first.agree second = true := by
  rw [agree.eq_def, wild, Bool.true_or, Bool.true_or]

theorem agree_of_isWildcard_right (first : Ty) {second : Ty} (wild : second.isWildcard = true) :
    first.agree second = true := by
  rw [agree.eq_def, wild, Bool.or_true, Bool.true_or]

/-- Types that do not agree are no wildcards. -/
theorem isWildcard_of_not_agree {first second : Ty} (apart : first.agree second = false) :
    first.isWildcard = false ∧ second.isWildcard = false := by
  rw [agree.eq_def, Bool.or_eq_false_iff, Bool.or_eq_false_iff] at apart
  exact apart.1

theorem agree_function (parts others : List Ty) :
    (Ty.function parts).agree (.function others) = agreeAll parts others := by
  rw [agree, isWildcard_function, isWildcard_function, Bool.false_or, Bool.false_or]

theorem agree_named {name other : String} {arguments others : List Ty}
    (telling : (Ty.named name arguments).isWildcard = false) (tellingOther : (Ty.named other others).isWildcard = false) :
    (Ty.named name arguments).agree (.named other others) = (name == other && agreeAll arguments others) := by
  rw [agree, telling, tellingOther, Bool.false_or, Bool.false_or]

/-- **Types that agree, neither of them a wildcard, are built alike.** -/
theorem alike_of_agree {first second : Ty} (agrees : first.agree second = true) (telling : first.isWildcard = false)
    (tellingSecond : second.isWildcard = false) :
    (∃ name arguments others, first = .named name arguments ∧ second = .named name others ∧
        agreeAll arguments others = true) ∨
      ∃ parts others, first = .function parts ∧ second = .function others ∧ agreeAll parts others = true := by
  cases first with
  | «variable» name => cases telling
  | named name arguments =>
    cases second with
    | «variable» other => cases tellingSecond
    | named other others =>
      rw [agree_named telling tellingSecond, Bool.and_eq_true, beq_iff_eq] at agrees
      obtain ⟨rfl, agrees⟩ := agrees
      exact .inl ⟨name, arguments, others, rfl, rfl, agrees⟩
    | function others =>
      rw [agree.eq_def, telling, tellingSecond] at agrees
      cases agrees
  | function parts =>
    cases second with
    | «variable» other => cases tellingSecond
    | named other others =>
      rw [agree.eq_def, telling, tellingSecond] at agrees
      cases agrees
    | function others =>
      rw [agree_function] at agrees
      exact .inr ⟨parts, others, rfl, rfl, agrees⟩

mutual

theorem agree_refl : ∀ type : Ty, type.agree type = true
  | .variable _ => rfl
  | .named name arguments => by
    rw [agree]
    simp [agreeAll_refl arguments]
  | .function parts => by rw [agree_function, agreeAll_refl parts]

theorem agreeAll_refl : ∀ types : List Ty, agreeAll types types = true
  | [] => rfl
  | type :: rest => by rw [agreeAll, agree_refl type, agreeAll_refl rest, Bool.and_self]

end

mutual

theorem agree_comm : ∀ first second : Ty, first.agree second = second.agree first
  | .variable name, second => by
    rw [agree_of_isWildcard_left (isWildcard_variable name), agree_of_isWildcard_right second (isWildcard_variable name)]
  | first, .variable name => by
    rw [agree_of_isWildcard_left (isWildcard_variable name), agree_of_isWildcard_right first (isWildcard_variable name)]
  | .named name arguments, .named other others => by
    rw [agree, agree, Bool.or_comm (isWildcard _), agreeAll_comm arguments others, Bool.beq_comm]
  | .named name arguments, .function others => by
    rw [agree.eq_def, agree.eq_def (.function _) (.named ..), Bool.or_comm (isWildcard (.named ..))]
  | .function parts, .named other others => by
    rw [agree.eq_def, agree.eq_def (.named ..) (.function _), Bool.or_comm (isWildcard (.function _))]
  | .function parts, .function others => by rw [agree_function, agree_function, agreeAll_comm parts others]

theorem agreeAll_comm : ∀ types others : List Ty, agreeAll types others = agreeAll others types
  | [], [] => rfl
  | [], _ :: _ => rfl
  | _ :: _, [] => rfl
  | first :: rest, second :: others => by rw [agreeAll, agreeAll, agree_comm first second, agreeAll_comm rest others]

end

/-! ## Whole types -/

mutual

/-- There is no `any` and no variable anywhere in the type. -/
def isWhole : Ty → Bool
  | .variable _ => false
  | .named name arguments => !(Ty.named name arguments).isAny && allWhole arguments
  | .function parts => allWhole parts

/-- All of the types are whole. -/
def allWhole : List Ty → Bool
  | [] => true
  | type :: rest => type.isWhole && allWhole rest

end

theorem isWildcard_of_isWhole {type : Ty} (whole : type.isWhole = true) : type.isWildcard = false := by
  cases type with
  | «variable» name => cases whole
  | named name arguments =>
    rw [isWhole, Bool.and_eq_true, Bool.not_eq_true'] at whole
    rw [isWildcard, whole.1]
    rfl
  | function parts => rfl

theorem allWhole_of_isWhole_named {name : String} {arguments : List Ty} (whole : (Ty.named name arguments).isWhole = true) :
    allWhole arguments = true := by
  rw [isWhole, Bool.and_eq_true] at whole
  exact whole.2

mutual

/-- **Agreement carries over through a whole type.** -/
theorem agree_of_isWhole : ∀ {middle : Ty}, middle.isWhole = true → ∀ {first second : Ty},
    first.agree middle = true → middle.agree second = true → first.agree second = true
  | .variable _, whole, _, _, _, _ => by cases whole
  | .named name arguments, whole, first, second, one, two => by
    by_cases wild : first.isWildcard = true
    · exact agree_of_isWildcard_left wild second
    by_cases wildSecond : second.isWildcard = true
    · exact agree_of_isWildcard_right first wildSecond
    rw [Bool.not_eq_true] at wild wildSecond
    obtain ⟨_, befores, _, rfl, ⟨rfl, rfl⟩, before⟩ | ⟨_, _, _, ⟨⟩, _⟩ := alike_of_agree one wild (isWildcard_of_isWhole whole)
    obtain ⟨_, _, afters, ⟨rfl, rfl⟩, rfl, after⟩ | ⟨_, _, ⟨⟩, _, _⟩ :=
      alike_of_agree two (isWildcard_of_isWhole whole) wildSecond
    rw [agree_named wild wildSecond, beq_self_eq_true, Bool.true_and]
    exact agreeAll_of_allWhole (allWhole_of_isWhole_named whole) before after
  | .function parts, whole, first, second, one, two => by
    by_cases wild : first.isWildcard = true
    · exact agree_of_isWildcard_left wild second
    by_cases wildSecond : second.isWildcard = true
    · exact agree_of_isWildcard_right first wildSecond
    rw [Bool.not_eq_true] at wild wildSecond
    obtain ⟨_, _, _, _, ⟨⟩, _⟩ | ⟨befores, _, rfl, ⟨rfl⟩, before⟩ := alike_of_agree one wild (isWildcard_of_isWhole whole)
    obtain ⟨_, _, _, ⟨⟩, _, _⟩ | ⟨_, afters, ⟨rfl⟩, rfl, after⟩ := alike_of_agree two (isWildcard_of_isWhole whole) wildSecond
    rw [agree_function]
    exact agreeAll_of_allWhole whole before after

theorem agreeAll_of_allWhole : ∀ {middles : List Ty}, allWhole middles = true → ∀ {firsts seconds : List Ty},
    agreeAll firsts middles = true → agreeAll middles seconds = true → agreeAll firsts seconds = true
  | [], _, [], [], _, _ => rfl
  | middle :: middles, whole, first :: firsts, second :: seconds, one, two => by
    rw [allWhole, Bool.and_eq_true] at whole
    rw [agreeAll, Bool.and_eq_true] at one two ⊢
    exact ⟨agree_of_isWhole whole.1 one.1 two.1, agreeAll_of_allWhole whole.2 one.2 two.2⟩

end

mutual

/-- **Whole types that agree are one type.** -/
theorem eq_of_agree : ∀ {first second : Ty}, first.isWhole = true → second.isWhole = true →
    first.agree second = true → first = second
  | .variable _, _, whole, _, _ => by cases whole
  | .named name arguments, second, whole, wholeSecond, agrees => by
    obtain ⟨_, _, others, ⟨rfl, rfl⟩, rfl, each⟩ | ⟨_, _, ⟨⟩, _, _⟩ :=
      alike_of_agree agrees (isWildcard_of_isWhole whole) (isWildcard_of_isWhole wholeSecond)
    rw [eq_of_agreeAll (allWhole_of_isWhole_named whole) (allWhole_of_isWhole_named wholeSecond) each]
  | .function parts, second, whole, wholeSecond, agrees => by
    obtain ⟨_, _, _, ⟨⟩, _, _⟩ | ⟨_, others, ⟨rfl⟩, rfl, each⟩ :=
      alike_of_agree agrees (isWildcard_of_isWhole whole) (isWildcard_of_isWhole wholeSecond)
    rw [eq_of_agreeAll whole wholeSecond each]

theorem eq_of_agreeAll : ∀ {firsts seconds : List Ty}, allWhole firsts = true → allWhole seconds = true →
    agreeAll firsts seconds = true → firsts = seconds
  | [], [], _, _, _ => rfl
  | first :: firsts, second :: seconds, whole, wholeSecond, agrees => by
    rw [allWhole, Bool.and_eq_true] at whole wholeSecond
    rw [agreeAll, Bool.and_eq_true] at agrees
    rw [eq_of_agree whole.1 wholeSecond.1 agrees.1, eq_of_agreeAll whole.2 wholeSecond.2 agrees.2]

end

/-! ## Types that are not whole -/

/-- `number` and `string` do not agree, and so they tell a wildcard from a type of which something is known. -/
theorem number_string_apart : Ty.number.agree .string = false := by
  decide

mutual

/-- **A type that is not whole agrees with two types that do not agree with each other.** -/
theorem exists_apart : ∀ {middle : Ty}, middle.isWhole = false →
    ∃ first second : Ty, first.agree middle = true ∧ middle.agree second = true ∧ first.agree second = false
  | .variable _, _ =>
    ⟨.number, .string, agree_of_isWildcard_right _ rfl, agree_of_isWildcard_left rfl _, number_string_apart⟩
  | .named name arguments, notWhole => by
    by_cases wild : (Ty.named name arguments).isWildcard = true
    · exact ⟨.number, .string, agree_of_isWildcard_right _ wild, agree_of_isWildcard_left wild _, number_string_apart⟩
    rw [Bool.not_eq_true] at wild
    have notAny : (Ty.named name arguments).isAny = false := (Bool.or_eq_false_iff.mp wild).1
    rw [isWhole, notAny, Bool.not_false, Bool.true_and] at notWhole
    obtain ⟨first, firsts, second, seconds, one, two, apart⟩ := exists_allApart notWhole
    refine ⟨.named name (first :: firsts), .named name (second :: seconds), ?_, ?_, ?_⟩
    · rw [agree_named (isWildcard_named_cons ..) wild, one, beq_self_eq_true, Bool.and_self]
    · rw [agree_named wild (isWildcard_named_cons ..), two, beq_self_eq_true, Bool.and_self]
    · rw [agree_named (isWildcard_named_cons ..) (isWildcard_named_cons ..), apart, Bool.and_false]
  | .function parts, notWhole => by
    have notAll : allWhole parts = false := notWhole
    obtain ⟨first, firsts, second, seconds, one, two, apart⟩ := exists_allApart notAll
    refine ⟨.function (first :: firsts), .function (second :: seconds), ?_, ?_, ?_⟩
    · rw [agree_function, one]
    · rw [agree_function, two]
    · rw [agree_function, apart]

theorem exists_allApart : ∀ {middles : List Ty}, allWhole middles = false →
    ∃ first firsts second seconds, agreeAll (first :: firsts) middles = true ∧
      agreeAll middles (second :: seconds) = true ∧ agreeAll (first :: firsts) (second :: seconds) = false
  | middle :: rest, notWhole => by
    rw [allWhole, Bool.and_eq_false_iff] at notWhole
    by_cases whole : middle.isWhole = true
    · obtain ⟨first, firsts, second, seconds, one, two, apart⟩ :=
        exists_allApart (notWhole.resolve_left (by rw [whole]; decide))
      refine ⟨middle, first :: firsts, middle, second :: seconds, ?_, ?_, ?_⟩
      · rw [agreeAll, agree_refl, one, Bool.and_self]
      · rw [agreeAll, agree_refl, two, Bool.and_self]
      · rw [agreeAll, apart, Bool.and_false]
    · obtain ⟨first, second, one, two, apart⟩ := exists_apart (Bool.eq_false_iff.mpr whole)
      refine ⟨first, rest, second, rest, ?_, ?_, ?_⟩
      · rw [agreeAll, one, agreeAll_refl, Bool.and_self]
      · rw [agreeAll, two, agreeAll_refl, Bool.and_self]
      · rw [agreeAll, apart, Bool.false_and]

end

/-- **Agreement carries over through a type just in case it is whole.** -/
theorem isWhole_iff (middle : Ty) : middle.isWhole = true ↔ ∀ first second : Ty,
    first.agree middle = true → middle.agree second = true → first.agree second = true := by
  refine ⟨fun whole first second => agree_of_isWhole whole, fun carries => ?_⟩
  refine Bool.of_not_eq_false fun notWhole => ?_
  obtain ⟨first, second, one, two, apart⟩ := exists_apart notWhole
  rw [carries first second one two] at apart
  cases apart

end DerwLang.Ty
