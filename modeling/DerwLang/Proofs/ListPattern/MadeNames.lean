/-
**The names that the lowering of list patterns makes.**

Every part of a pattern has names of its own for what it takes off the list: the element, what is left after it, and
for a search the index found and the index looked at. Each is a fixed start and the number of the part, so that no two
of them are equal (`madeName_inj`), and none is the name of the value that a case looks at
(`candidate_not_made`).
-/

import DerwLang.Ecma.ListPattern
import DerwLang.Ecma.TempNames
import Mathlib.Data.List.Basic
import Mathlib.Tactic.Common

namespace DerwLang.Ecma

/-- What a made name stands for. -/
inductive Role
  | element
  | rest
  | cursor
  | found
deriving DecidableEq

/-- How the names of a role start. -/
def Role.start : Role → String
  | .element => "_"
  | .rest => "_rest"
  | .cursor => "_i"
  | .found => "_foundIndex"

/-- The name of a role for the part at an index. -/
def madeName (role : Role) (index : Nat) : String :=
  role.start ++ toString index

/-- The name is one that lowering makes. -/
def IsMade (name : String) : Prop :=
  ∃ role index, name = madeName role index

theorem isMade_madeName (role : Role) (index : Nat) : IsMade (madeName role index) :=
  ⟨role, index, rfl⟩

theorem elementName_anchor {part : ListPart} (index : Nat) (anchored : (anchor? part).isSome) :
    elementName index part = madeName .element index := by
  cases part <;> simp_all [anchor?, elementName, madeName, Role.start]

theorem restName_eq (index : Nat) : restName index = madeName .rest index := rfl

theorem cursorName_eq (index : Nat) : cursorName index = madeName .cursor index := rfl

theorem foundName_eq (index : Nat) : foundName index = madeName .found index := rfl

/-- What stands before the first digit. -/
def beforeDigits (text : String) : List Char :=
  text.toList.takeWhile fun c => !c.isDigit

/-- A number that is put behind a text without digits begins with the first digit. -/
theorem beforeDigits_append (start : String) (plain : start.toList.all (!·.isDigit) = true)
    (number : Nat) (tail : String) :
    beforeDigits (start ++ toString number ++ tail) = start.toList := by
  have digit : ∀ c ∈ Nat.toDigits 10 number, c.isDigit = true :=
    fun c member => Nat.isDigit_of_mem_toDigits (by decide) (by decide) member
  cases digits : Nat.toDigits 10 number with
  | nil => exact absurd digits Nat.toDigits_ne_nil
  | cons first more =>
    have shape : (start ++ toString number ++ tail).toList
        = start.toList ++ (first :: (more ++ tail.toList)) := by
      simp [Nat.toList_repr, digits]
    rw [beforeDigits, shape, List.takeWhile_append_of_pos (List.all_eq_true.mp plain)]
    simp [digit first (by simp [digits])]

theorem beforeDigits_madeName (role : Role) (index : Nat) :
    beforeDigits (madeName role index) = role.start.toList := by
  have plain : role.start.toList.all (!·.isDigit) = true := by cases role <;> rfl
  simpa [madeName] using beforeDigits_append role.start plain index ""

/-- Different numbers are written differently. -/
theorem eq_of_toString_eq {index other : Nat} (same : toString index = toString other) : index = other := by
  have digits : Nat.toDigits 10 index = Nat.toDigits 10 other := by
    rw [← Nat.toList_repr, show index.repr = other.repr from same, Nat.toList_repr]
  rw [← Nat.ofDigitChars_ten_toDigits (n := index), digits, Nat.ofDigitChars_ten_toDigits]

/-- Made names of different roles or different parts are different. -/
theorem madeName_inj {first second : Role} {index other : Nat} :
    madeName first index = madeName second other ↔ first = second ∧ index = other := by
  constructor
  · intro same
    have starts : first.start.toList = second.start.toList := by
      rw [← beforeDigits_madeName first index, same, beforeDigits_madeName]
    have roles : first = second := by
      revert starts
      cases first <;> cases second <;> decide
    subst roles
    exact ⟨rfl, eq_of_toString_eq ((String.append_right_inj _).mp same)⟩
  · rintro ⟨rfl, rfl⟩
    rfl

/-- Every made name starts with an underscore. -/
theorem IsMade.underscore {name : String} (made : IsMade name) : name.toList.head? = some '_' := by
  obtain ⟨role, index, rfl⟩ := made
  cases role <;> simp [madeName, Role.start]

/-- The name of the value that a case looks at is none that taking a list apart makes. -/
theorem candidate_not_made (text : String) (count : Nat) : ¬ IsMade (TempNames.candidate text count) := by
  rintro ⟨role, index, same⟩
  have temporary : beforeDigits (TempNames.candidate text count) = "_res".toList := by
    cases count with
    | zero => simpa [TempNames.candidate] using
        beforeDigits_append "_res" rfl (Text.hash text) ""
    | succ count =>
      have := beforeDigits_append "_res" rfl (Text.hash text)
        ("_" ++ toString (count + 1))
      simpa [TempNames.candidate, String.append_assoc] using this
  rw [same, beforeDigits_madeName] at temporary
  revert temporary
  cases role <;> decide

end DerwLang.Ecma
