/-
**Names of other modules.**

A dotted name with a capital is read as a path and a last segment (`reference_whole`), and any other name as itself
(`reference_value`). What a name is read as can be read again (`everywhere_reference`).
-/

import DerwLang.Grammar.Expression
import DerwLang.Proofs.Layout.Sound

namespace DerwLang

open Grammar Layout

namespace Written

theorem splitWhere_none {test : Char → Bool} {chars : List Char} (none_ : ∀ c ∈ chars, test c = false) :
    Text.splitWhere test chars = [chars] := by
  induction chars with
  | nil => rfl
  | cons c rest step =>
    rw [List.forall_mem_cons] at none_
    rw [Text.splitWhere, none_.1, step none_.2]
    rfl

/-- The first part of a text starts with the first character, if it has any. -/
theorem splitWhere_first (test : Char → Bool) (c : Char) (rest : List Char) :
    ∃ part more, Text.splitWhere test (c :: rest) = part :: more ∧ (part = [] ∨ ∃ others, part = c :: others) := by
  rw [Text.splitWhere]
  split
  · exact ⟨[], _, rfl, .inl rfl⟩
  · cases Text.splitWhere test rest with
    | nil => exact ⟨[c], [], rfl, .inr ⟨[], rfl⟩⟩
    | cons part more => exact ⟨c :: part, more, rfl, .inr ⟨part, rfl⟩⟩

/-- The first segment of a name is no capitalised one when the name is not. -/
theorem not_capitalised_segment {name head : String} {more : List String} (small : Text.isCapitalised name = false)
    (segments : Text.splitAt '.' name = head :: more) : Text.isCapitalised head = false := by
  rw [Text.splitAt] at segments
  rw [Text.isCapitalised] at small ⊢
  cases chars : name.toList with
  | nil =>
    rw [chars, Text.splitWhere, List.map_cons, List.map_nil] at segments
    rw [← (List.cons.inj segments).1]
    rfl
  | cons c rest =>
    obtain ⟨part, others, same, first⟩ := splitWhere_first (· == '.') c rest
    rw [chars, same, List.map_cons] at segments
    rw [← (List.cons.inj segments).1, String.toList_ofList]
    rw [chars] at small
    rcases first with rfl | ⟨more, rfl⟩
    · rfl
    · exact small

/-- A name that is not capitalised is no name of another module. -/
theorem reference_small {name : String} (small : Text.isCapitalised name = false) (arguments : List Expression) :
    reference name arguments = applied name arguments := by
  rw [reference]
  split
  · rename_i head path last init _
    have segments : ∃ more, Text.splitAt '.' name = head :: more := by
      cases whole : Text.splitAt '.' name with
      | nil => simp [whole] at init
      | cons first more =>
        rw [whole] at init
        cases more with
        | nil => simp at init
        | cons second others => exact ⟨_, congrArg (· :: _) (List.cons.inj init).1⟩
    obtain ⟨more, same⟩ := segments
    rw [if_neg (by simp [not_capitalised_segment small same])]
  · rfl

/-- A name without a dot is no name of another module. -/
theorem reference_plain {name : String} (plain : Text.hasChar name '.' = false) (arguments : List Expression) :
    reference name arguments = applied name arguments := by
  have single : Text.splitAt '.' name = [name] := by
    rw [Text.splitAt, splitWhere_none, List.map_singleton, String.ofList_toList]
    intro c member
    by_contra dot
    rw [Bool.not_eq_false, beq_iff_eq] at dot
    subst dot
    simp [Text.hasChar, member] at plain
  rw [reference, single]
  rfl

/-- A name of another module is read as its path and its last segment. -/
theorem reference_whole {path : List String} {name : String} (sound : Sound.Reference path name)
    (arguments : List Expression) : reference (whole path name) arguments = .reference path (applied name arguments) := by
  obtain ⟨-, segments, head, rest, rfl, capital⟩ := sound
  rw [reference, segments, List.dropLast_concat, List.getLast?_concat]
  simp [capital]

/-- A name with a path has a dot. -/
theorem hasChar_whole (path : List String) (name : String) : Text.hasChar (whole path name) '.' = true := by
  simp [Text.hasChar, whole]

/-- A value that is a name is read as this name. -/
theorem reference_value {name : String} (plain : Sound.Plain name) : reference name [] = .value name := by
  cases capital : Text.isCapitalised name with
  | false => exact reference_small capital []
  | true => exact reference_plain (plain capital) []

/-! ## What names are read as -/

/-- The parts of a text make it up again. -/
theorem intercalate_splitWhere (separator : Char) (chars : List Char) :
    List.intercalate [separator] (Text.splitWhere (· == separator) chars) = chars := by
  induction chars with
  | nil => rfl
  | cons c rest step =>
    rw [Text.splitWhere]
    cases parts : Text.splitWhere (· == separator) rest with
    | nil => exact absurd parts (Text.splitWhere_ne_nil _ rest)
    | cons part more =>
      rw [parts] at step
      split
      · rename_i isSeparator
        rw [List.intercalate_cons_cons, step, beq_iff_eq.mp isSeparator]
        rfl
      · rw [intercalate_cons] at step ⊢
        rw [List.cons_append, step]

/-- The segments of a name make it up again. -/
theorem whole_of_splitAt {name last : String} {path : List String} (some_ : path ≠ [])
    (segments : Text.splitAt '.' name = path ++ [last]) : whole path last = name := by
  have parts : (path ++ [last]).map String.toList = Text.splitWhere (· == '.') name.toList := by
    rw [← segments, Text.splitAt, List.map_map]
    exact (List.map_congr_left fun _ _ => String.toList_ofList).trans (List.map_id _)
  have texts := intercalate_splitWhere '.' name.toList
  rw [← parts] at texts
  cases path with
  | nil => exact absurd rfl some_
  | cons head rest =>
    rw [List.cons_append, List.map_cons, intercalate_cons, List.map_append, List.flatMap_append] at texts
    rw [← String.toList_inj, ← texts, whole, String.toList_append, String.toList_append, String.toList_intercalate,
      List.map_cons, intercalate_cons]
    simp

/-- In a single part there is nothing to split at. -/
theorem splitWhere_single {test : Char → Bool} {chars part : List Char} (single : Text.splitWhere test chars = [part]) :
    ∀ c ∈ chars, test c = false := by
  induction chars generalizing part with
  | nil => simp
  | cons c rest step =>
    rw [Text.splitWhere] at single
    split at single
    · exact absurd (List.cons.inj single).2 (Text.splitWhere_ne_nil _ rest)
    · rename_i stays
      cases parts : Text.splitWhere test rest with
      | nil => exact absurd parts (Text.splitWhere_ne_nil _ rest)
      | cons first more =>
        rw [parts] at single
        obtain rfl : more = [] := (List.cons.inj single).2
        exact List.forall_mem_cons.mpr ⟨by simpa using stays, step parts⟩

/-- A capitalised name with a dot is the whole name of a value of another module. -/
theorem reference_of_dotted {name : String} (isName : Sound.Name name) (capital : Text.isCapitalised name = true)
    (dotted : Text.hasChar name '.' = true) :
    ∃ path last, whole path last = name ∧ Sound.Reference path last := by
  have segments : ∃ head path last, Text.splitAt '.' name = head :: path ++ [last] ∧ Text.isCapitalised head = true := by
    rw [Text.isCapitalised] at capital
    rw [Text.hasChar, List.contains_eq_mem, decide_eq_true_eq] at dotted
    cases chars : name.toList with
    | nil => simp [chars] at capital
    | cons c rest =>
      rw [chars] at capital dotted
      have noDot : c ≠ '.' := by
        rintro rfl
        exact absurd (show Text.isUppercase '.' = true from capital) (by decide)
      have parts : ∃ part more, Text.splitWhere (· == '.') (c :: rest) = (c :: part) :: more := by
        rw [Text.splitWhere, if_neg (by simpa using noDot)]
        split
        · exact ⟨[], [], rfl⟩
        · exact ⟨_, _, rfl⟩
      obtain ⟨part, more, parts⟩ := parts
      have several : more ≠ [] := by
        rintro rfl
        exact absurd (splitWhere_single parts '.' dotted) (by decide)
      refine ⟨String.ofList (c :: part), more.dropLast.map String.ofList, String.ofList (more.getLast several), ?_, ?_⟩
      · rw [Text.splitAt, chars, parts, List.map_cons, List.cons_append]
        conv_lhs => rw [← List.dropLast_concat_getLast several, List.map_append]
        rfl
      · rw [Text.isCapitalised, String.toList_ofList]
        exact capital
  obtain ⟨head, path, last, segments, capitalHead⟩ := segments
  have same := whole_of_splitAt (List.cons_ne_nil head path) segments
  refine ⟨head :: path, last, same, ?_⟩
  rw [Sound.Reference, same]
  exact ⟨isName, segments, head, path, rfl, capitalHead⟩

/-- **What a name with its arguments is read as can be read.** -/
theorem everywhere_reference {name : String} (isName : Sound.Name name) {arguments : List Expression}
    (sound : ∀ argument ∈ arguments, argument.Everywhere Sound.checks)
    (alone : arguments ≠ [] → Text.isCapitalised name = true → Text.hasChar name '.' = true) :
    (reference name arguments).Everywhere Sound.checks := by
  have named : Sound.Plain name → (arguments ≠ [] → Text.isCapitalised name = false) →
      (applied name arguments).Everywhere Sound.checks := by
    intro plain small
    cases arguments with
    | nil => exact ⟨.inl ⟨isName, plain⟩, trivial⟩
    | cons argument more =>
      exact everywhere_call.mpr ⟨⟨isName, small (List.cons_ne_nil _ _), List.cons_ne_nil _ _⟩, sound⟩
  cases capital : Text.isCapitalised name with
  | false =>
    rw [reference_small capital]
    exact named (by simp [Sound.Plain, capital]) fun _ => capital
  | true =>
    cases dotted : Text.hasChar name '.' with
    | false =>
      rw [reference_plain dotted]
      exact named (fun _ => dotted) fun some_ => absurd (alone some_ capital) (by simp [dotted])
    | true =>
      obtain ⟨path, last, rfl, isReference⟩ := reference_of_dotted isName capital dotted
      rw [reference_whole isReference]
      cases arguments with
      | nil => exact ⟨isReference, trivial⟩
      | cons argument more => exact everywhere_reference_call.mpr ⟨⟨isReference, List.cons_ne_nil _ _⟩, sound⟩

end Written

end DerwLang
