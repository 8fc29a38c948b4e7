/-
**The names of the values that cases look at, call after call.**

The register of names is asked for one text after another. A text that was asked for before gets its name again; a new one gets
the first of its candidates that is not taken. What is proved of any sequence of calls (`naming`):

* the search for a free name ends: it goes from one candidate to the next (`search`), candidates of different counts are
  different (`candidate_inj`), and only finitely many names are taken, so `free` finds the name that the search ends with
  (`free_spec`, `search_eq_free`);
* equal texts get one name and different texts different names, since a text keeps its name (`lookup_run`) and no name is given
  twice (`nodup_run`);
* the name of a new text is that of its hash if this is free, and otherwise the one with the least suffix that is
  (`answers_new`).

The names and the texts may as well be kept in two collections of their own (`Register`); the answers are the same.
-/

import DerwLang.Proofs.ListPattern.MadeNames
import Mathlib.Data.List.Nodup
import Mathlib.Data.List.Perm.Subperm
import Mathlib.Data.PFun
import Std.Data.HashMap
import Std.Data.HashSet

namespace DerwLang.Ecma.TempNames

/-! ## Sequences of calls -/

/-- The names of the texts, asked for one after the other, and the names given after that. -/
def run (names : TempNames) : List String → List String × TempNames
  | [] => ([], names)
  | text :: more =>
    let (name, next) := nameFor text names
    let (others, last) := next.run more
    (name :: others, last)

/-- The names of texts that are asked for one after the other, none having been given before. -/
def answers (texts : List String) : List String :=
  (({} : TempNames).run texts).1

theorem run_append (names : TempNames) (front back : List String) :
    names.run (front ++ back) =
      ((names.run front).1 ++ ((names.run front).2.run back).1, ((names.run front).2.run back).2) := by
  induction front generalizing names with
  | nil => rfl
  | cons text more step => simp only [List.cons_append, run, step]

theorem length_run (names : TempNames) (texts : List String) : (names.run texts).1.length = texts.length := by
  induction texts generalizing names with
  | nil => rfl
  | cons text more step => simp only [run, List.length_cons, step]

/-! ## The first free name -/

variable {names : TempNames} {text name : String}

/-- A name with a suffix is no name without one. -/
theorem candidate_zero_ne (text : String) (count : Nat) : candidate text 0 ≠ candidate text (count + 1) := by
  intro same
  have lengths := congrArg String.length same
  have line : "_".length = 1 := rfl
  simp only [candidate, String.length_append] at lengths
  omega

/-- The candidates of a text are different. -/
theorem candidate_inj {count other : Nat} : candidate text count = candidate text other ↔ count = other := by
  refine ⟨fun same => ?_, fun same => congrArg _ same⟩
  match count, other with
  | 0, 0 => rfl
  | 0, other + 1 => exact absurd same (candidate_zero_ne text other)
  | count + 1, 0 => exact absurd (Eq.symm same) (candidate_zero_ne text count)
  | count + 1, other + 1 => exact eq_of_toString_eq ((String.append_right_inj _).mp same)

/-- **Some candidate is free**: there is one more of them than there are names taken. -/
theorem exists_free (names : TempNames) (text : String) :
    ∃ count < names.entries.length + 1, candidate text count ∉ names.taken := by
  by_contra none_
  push Not at none_
  have different : ((List.range (names.entries.length + 1)).map (candidate text)).Nodup :=
    List.Nodup.map (fun _ _ same => candidate_inj.mp same) List.nodup_range
  have inside : (List.range (names.entries.length + 1)).map (candidate text) ⊆ names.taken := by
    intro name member
    obtain ⟨count, low, rfl⟩ := List.mem_map.mp member
    exact none_ count (List.mem_range.mp low)
  have tooMany := (List.subperm_of_subset different inside).length_le
  simp only [List.length_map, List.length_range, taken] at tooMany
  omega

/-- **The free name of a text** is the first of its candidates that is not taken. -/
theorem free_spec (names : TempNames) (text : String) :
    ∃ count, names.free text = candidate text count ∧ candidate text count ∉ names.taken ∧
      ∀ smaller < count, candidate text smaller ∈ names.taken := by
  obtain ⟨bound, low, isFree⟩ := exists_free names text
  cases found : (List.range (names.entries.length + 1)).find? fun count => !names.taken.contains (candidate text count) with
  | none =>
    rw [List.find?_eq_none] at found
    exact absurd (by simpa using isFree) (found bound (List.mem_range.mpr low))
  | some count =>
    refine ⟨count, by rw [free]; simp only [found, Option.getD_some], ?_⟩
    rw [List.find?_range_eq_some] at found
    exact ⟨by simpa using found.1, fun smaller less => by simpa using found.2.2 smaller less⟩

/-- One round of the search for a free name: it ends if the name is free, and otherwise goes on with the next suffix. -/
def searchRound (isTaken : String → Bool) (base : String) : String × Nat →. String ⊕ String × Nat := fun (name, suffix) =>
  .some (if isTaken name then .inr (base ++ "_" ++ toString suffix, suffix + 1) else .inl name)

/-- The search for a free name, round after round, from a name and the suffix to try after it. It has no result if it does not
end. -/
def search (isTaken : String → Bool) (base : String) : String × Nat →. String :=
  PFun.fix (searchRound isTaken base)

/-- A round at a candidate ends with it if it is free, and otherwise goes on to the next candidate. -/
theorem searchRound_candidate (isTaken : String → Bool) (text : String) (count : Nat) :
    searchRound isTaken (candidate text 0) (candidate text count, count + 1) =
      .some (if isTaken (candidate text count) then .inr (candidate text (count + 1), count + 2) else .inl (candidate text count)) :=
  rfl

/-- The search goes on to the first candidate that is free. -/
theorem search_candidate {isTaken : String → Bool} {count : Nat} (isFree : isTaken (candidate text count) = false) :
    ∀ start ≤ count, (∀ other, start ≤ other → other < count → isTaken (candidate text other) = true) →
      candidate text count ∈ search isTaken (candidate text 0) (candidate text start, start + 1) := by
  intro start low between
  have round := searchRound_candidate isTaken text start
  induction left : count - start generalizing start with
  | zero =>
    obtain rfl : start = count := by omega
    rw [isFree] at round
    exact PFun.fix_stop (Part.eq_some_iff.mp round)
  | succ left step =>
    rw [between start (Nat.le_refl _) (by omega)] at round
    rw [search, PFun.fix_fwd_eq (Part.eq_some_iff.mp round)]
    exact step (start + 1) (by omega) (fun other high => between other (by omega)) (searchRound_candidate _ _ _) (by omega)

/-- **The search for a free name ends**, with the first free candidate. -/
theorem search_eq_free (names : TempNames) (text : String) :
    search names.taken.contains (candidate text 0) (candidate text 0, 1) = .some (names.free text) := by
  obtain ⟨count, same, isFree, below⟩ := free_spec names text
  rw [same]
  refine Part.eq_some_iff.mpr ?_
  exact search_candidate (by simpa using isFree) 0 (Nat.zero_le _) fun other _ less => by simpa using below other less

/-! ## Two collections -/

/-- The name of each text and the names that are taken, in a collection each. -/
structure Register where
  byText : Std.HashMap String String := {}
  taken : Std.HashSet String := {}

/-- The name of a text, found again or searched for, and the register after that. -/
def Register.nameFor (register : Register) (text : String) : Part (String × Register) :=
  match register.byText[text]? with
  | some name => .some (name, register)
  | none => do
    let base := "_res" ++ toString (Text.hash text)
    let name ← search register.taken.contains base (base, 1)
    return (name, ⟨register.byText.insert text name, register.taken.insert name⟩)

/-- The names of the texts, asked for one after the other, and the register after that. -/
def Register.run (register : Register) : List String → Part (List String × Register)
  | [] => .some ([], register)
  | text :: more => do
    let (name, next) ← register.nameFor text
    let (others, last) ← next.run more
    return (name :: others, last)

/-- The two collections hold what the names given say. -/
structure Register.Holds (register : Register) (names : TempNames) : Prop where
  byText : ∀ text : String, register.byText[text]? = names.entries.lookup text
  taken : ∀ name, register.taken.contains name = names.taken.contains name

theorem Register.Holds.nameFor {register : Register} (holds : register.Holds names) (text : String) :
    ∃ next, register.nameFor text = .some ((TempNames.nameFor text names).1, next) ∧
      next.Holds (TempNames.nameFor text names).2 := by
  cases known : names.entries.lookup text with
  | some name => exact ⟨register, by simp [Register.nameFor, TempNames.nameFor, holds.byText, known], by
      simpa [TempNames.nameFor, known] using holds⟩
  | none =>
    have found : search register.taken.contains (candidate text 0) (candidate text 0, 1) = .some (names.free text) := by
      rw [show register.taken.contains = names.taken.contains from funext holds.taken]
      exact search_eq_free names text
    refine ⟨⟨register.byText.insert text (names.free text), register.taken.insert (names.free text)⟩, ?_, ?_, ?_⟩
    · rw [candidate] at found
      simp only [Register.nameFor, TempNames.nameFor, holds.byText, known, found, Part.bind_eq_bind, Part.bind_some,
        Part.pure_eq_some]
    · intro other
      simp only [TempNames.nameFor, known, List.lookup_append, ← holds.byText, Std.HashMap.getElem?_insert]
      by_cases same : text = other
      · subst same
        simp [holds.byText, known]
      · have reversed : (other == text) = false := by simpa using fun equal => same (Eq.symm equal)
        simp [same, List.lookup_cons, reversed]
    · intro name
      have grown : (TempNames.nameFor text names).2.taken = names.taken ++ [names.free text] := by
        simp [TempNames.nameFor, known, TempNames.taken]
      rw [Std.HashSet.contains_insert, holds.taken, grown, List.contains_append, Bool.or_comm, List.contains_cons,
        List.contains_nil, Bool.or_false, Bool.beq_comm]

/-- **Two collections give the same names**, and no search goes on forever. -/
theorem Register.Holds.run {register : Register} (holds : register.Holds names) (texts : List String) :
    ∃ last, register.run texts = .some ((names.run texts).1, last) := by
  induction texts generalizing names register with
  | nil => exact ⟨register, rfl⟩
  | cons text more step =>
    obtain ⟨next, found, holdsNext⟩ := holds.nameFor text
    obtain ⟨last, later⟩ := step holdsNext
    exact ⟨last, by simp [Register.run, TempNames.run, found, later]⟩

/-! ## What calls leave -/

/-- **A call** finds the name of a text again and changes nothing, or it gives the text its first free name. -/
theorem nameFor_cases (names : TempNames) (text : String) :
    (∃ name, names.entries.lookup text = some name ∧ nameFor text names = (name, names)) ∨
      names.entries.lookup text = none ∧ nameFor text names = (names.free text, ⟨names.entries ++ [(text, names.free text)]⟩) := by
  cases known : names.entries.lookup text with
  | some name => exact .inl ⟨name, rfl, by simp [nameFor, known]⟩
  | none => exact .inr ⟨rfl, by simp [nameFor, known]⟩

/-- The free name of a text is not taken. -/
theorem free_not_taken (names : TempNames) (text : String) : names.free text ∉ names.taken := by
  obtain ⟨count, same, isFree, -⟩ := free_spec names text
  exact same ▸ isFree

theorem mem_taken_of_lookup (known : names.entries.lookup text = some name) : (text, name) ∈ names.entries := by
  obtain ⟨front, back, whole, -⟩ := List.lookup_eq_some_iff.mp known
  simp [whole]

/-- A call keeps the names of texts. -/
theorem lookup_nameFor (asked : String) (known : names.entries.lookup text = some name) :
    (nameFor asked names).2.entries.lookup text = some name := by
  rcases nameFor_cases names asked with ⟨other, -, same⟩ | ⟨-, same⟩
  · rw [same, known]
  · rw [same, List.lookup_append, known, Option.some_or]

/-- After a call, the text has the name that was answered. -/
theorem lookup_asked (names : TempNames) (text : String) :
    (nameFor text names).2.entries.lookup text = some (nameFor text names).1 := by
  rcases nameFor_cases names text with ⟨name, known, same⟩ | ⟨unknown, same⟩
  · rw [same, known]
  · rw [same, List.lookup_append, unknown]
    simp

/-- A call gives names to no other texts. -/
theorem lookup_nameFor_none {asked : String} :
    (nameFor asked names).2.entries.lookup text = none ↔ names.entries.lookup text = none ∧ text ≠ asked := by
  rcases nameFor_cases names asked with ⟨other, known, same⟩ | ⟨unknown, same⟩
  · rw [same]
    refine ⟨fun none_ => ⟨none_, ?_⟩, And.left⟩
    rintro rfl
    simp [known] at none_
  · rw [same, List.lookup_append, Option.or_eq_none_iff]
    simp

/-- A call takes the name that it answers, and no other. -/
theorem mem_taken_nameFor {asked : String} :
    name ∈ (nameFor asked names).2.taken ↔ name ∈ names.taken ∨ name = (nameFor asked names).1 := by
  rcases nameFor_cases names asked with ⟨other, known, same⟩ | ⟨unknown, same⟩
  · rw [same]
    refine ⟨.inl, ?_⟩
    rintro (member | rfl)
    · exact member
    · exact List.mem_map.mpr ⟨_, mem_taken_of_lookup known, rfl⟩
  · rw [same]
    simp [taken]

/-- A call gives no name twice. -/
theorem nodup_nameFor (asked : String) (distinct : names.taken.Nodup) : (nameFor asked names).2.taken.Nodup := by
  rcases nameFor_cases names asked with ⟨other, known, same⟩ | ⟨unknown, same⟩
  · rwa [same]
  · rw [same, taken, List.map_append]
    refine List.nodup_append.mpr ⟨distinct, List.nodup_singleton _, fun name member other added => ?_⟩
    rintro rfl
    obtain rfl := List.mem_singleton.mp added
    exact free_not_taken names asked member

/-- No two texts share a name. -/
theorem eq_of_lookup {other : String} (distinct : names.taken.Nodup) (first : names.entries.lookup text = some name)
    (second : names.entries.lookup other = some name) : text = other := by
  have same := List.inj_on_of_nodup_map distinct (mem_taken_of_lookup first) (mem_taken_of_lookup second) rfl
  exact congrArg Prod.fst same

/-! ## What sequences of calls leave -/

theorem lookup_run (texts : List String) (known : names.entries.lookup text = some name) :
    (names.run texts).2.entries.lookup text = some name := by
  induction texts generalizing names with
  | nil => exact known
  | cons asked more step => exact step (lookup_nameFor asked known)

theorem lookup_run_none {texts : List String} :
    (names.run texts).2.entries.lookup text = none ↔ names.entries.lookup text = none ∧ text ∉ texts := by
  induction texts generalizing names with
  | nil => simp [run]
  | cons asked more step =>
    rw [run, step, lookup_nameFor_none, List.mem_cons, not_or, and_assoc]

theorem mem_taken_run {texts : List String} :
    name ∈ (names.run texts).2.taken ↔ name ∈ names.taken ∨ name ∈ (names.run texts).1 := by
  induction texts generalizing names with
  | nil => simp [run]
  | cons asked more step =>
    rw [run, step, mem_taken_nameFor, List.mem_cons, or_assoc]

theorem nodup_run (texts : List String) (distinct : names.taken.Nodup) : (names.run texts).2.taken.Nodup := by
  induction texts generalizing names with
  | nil => exact distinct
  | cons asked more step => exact step (nodup_nameFor asked distinct)

/-- **In the end every text has the name that was answered for it**, at each of its calls. -/
theorem lookup_answered (names : TempNames) {texts : List String} {index : Nat} (asked : texts[index]? = some text) :
    ∃ name, (names.run texts).1[index]? = some name ∧ (names.run texts).2.entries.lookup text = some name := by
  induction texts generalizing names index with
  | nil => simp at asked
  | cons first more step =>
    cases index with
    | zero =>
      obtain rfl : first = text := by simpa using asked
      exact ⟨_, rfl, lookup_run more (lookup_asked names first)⟩
    | succ index => exact step _ asked

/-- **Equal texts get one name and different texts get different ones.** -/
theorem answers_eq_iff {texts : List String} {index other : Nat} (within : index < texts.length) (inside : other < texts.length) :
    (answers texts)[index]? = (answers texts)[other]? ↔ texts[index]? = texts[other]? := by
  have first := List.getElem?_eq_getElem within
  have second := List.getElem?_eq_getElem inside
  obtain ⟨name, answered, known⟩ := lookup_answered {} first
  obtain ⟨nameToo, answeredToo, knownToo⟩ := lookup_answered {} second
  have distinct : (TempNames.run {} texts).2.taken.Nodup := nodup_run texts List.nodup_nil
  rw [first, second, answers, answered, answeredToo, Option.some_inj, Option.some_inj]
  constructor
  · rintro rfl
    exact eq_of_lookup distinct known knownToo
  · intro same
    rw [same, knownToo] at known
    exact Eq.symm (Option.some.inj known)

/-- **A new text** gets its first candidate that is not among the answers before. -/
theorem answers_new {before : List String} (isNew : text ∉ before) (after : List String) :
    ∃ count, (answers (before ++ text :: after))[before.length]? = some (candidate text count) ∧
      candidate text count ∉ answers before ∧ ∀ smaller < count, candidate text smaller ∈ answers before := by
  have given : ∀ name, name ∈ (({} : TempNames).run before).2.taken ↔ name ∈ answers before := fun name => by
    rw [mem_taken_run]
    exact or_iff_right List.not_mem_nil
  obtain ⟨count, same, isFree, below⟩ := free_spec (({} : TempNames).run before).2 text
  refine ⟨count, ?_, fun member => isFree ((given _).mpr member), fun smaller less => (given _).mp (below smaller less)⟩
  have unknown : (({} : TempNames).run before).2.entries.lookup text = none := lookup_run_none.mpr ⟨rfl, isNew⟩
  rw [answers, run_append, List.getElem?_append_right (Nat.le_of_eq (length_run _ _)), length_run, Nat.sub_self, run]
  simp only [nameFor, unknown, same, List.getElem?_cons_zero]

/-- **The names of case values are stable and different**, whatever texts they are made for in whatever order and however many of
these share a hash. No search for a name goes on forever, with two collections as little as with one; the names of two calls
are equal just when their texts are; and a new text gets the name of its hash, or if that is taken the one with the least suffix
that is not. -/
theorem naming (texts : List String) :
    (∃ last, Register.run {} texts = .some (answers texts, last)) ∧ (answers texts).length = texts.length ∧
    (∀ index other, index < texts.length → other < texts.length →
      ((answers texts)[index]? = (answers texts)[other]? ↔ texts[index]? = texts[other]?)) ∧
    ∀ before text after, texts = before ++ text :: after → text ∉ before →
      let base := "_res" ++ toString (Text.hash text)
      base ∉ answers before ∧ (answers texts)[before.length]? = some base ∨
        base ∈ answers before ∧ ∃ suffix, 1 ≤ suffix ∧
          (answers texts)[before.length]? = some (base ++ "_" ++ toString suffix) ∧
          base ++ "_" ++ toString suffix ∉ answers before ∧
          ∀ smaller, 1 ≤ smaller → smaller < suffix → base ++ "_" ++ toString smaller ∈ answers before := by
  have fresh : ({} : Register).Holds {} := ⟨fun _ => by simp, fun _ => by simp [taken]⟩
  refine ⟨fresh.run texts, length_run _ _, fun index other => answers_eq_iff, ?_⟩
  rintro before text after rfl isNew
  obtain ⟨count, answered, isFree, below⟩ := answers_new isNew after
  cases count with
  | zero => exact .inl ⟨isFree, answered⟩
  | succ count =>
    refine .inr ⟨below 0 (Nat.succ_pos _), count + 1, Nat.succ_pos _, answered, isFree, fun smaller positive less => ?_⟩
    obtain ⟨smaller, rfl⟩ := Nat.exists_eq_succ_of_ne_zero (Nat.ne_of_gt positive)
    exact below (smaller + 1) less

/-- Three texts of one hash, one of them asked for twice. -/
def sharing : List String := ["AaAa", "AaBB", "AaAa", "BBBB"]

theorem naming_sharing :
    Text.hash "AaAa" = Text.hash "AaBB" ∧ Text.hash "AaAa" = Text.hash "BBBB" ∧
      (answers sharing)[0]? = (answers sharing)[2]? ∧ (answers sharing)[0]? ≠ (answers sharing)[3]? ∧
      (∃ suffix : Nat, (answers sharing)[3]? = some ("_res" ++ toString (Text.hash "BBBB") ++ "_" ++ toString suffix)) ∧
      answers sharing = ["_res2031744", "_res2031744_1", "_res2031744", "_res2031744_2"] := by
  obtain ⟨-, -, equal, new⟩ := naming sharing
  refine ⟨by decide, by decide, (equal 0 2 (by decide) (by decide)).mpr rfl, fun same => ?_, ?_, by decide⟩
  · exact absurd ((equal 0 3 (by decide) (by decide)).mp same) (by decide)
  · rcases new ["AaAa", "AaBB", "AaAa"] "BBBB" [] rfl (by decide) with ⟨isFree, -⟩ | ⟨-, suffix, -, answered, -⟩
    · exact absurd (by decide) isFree
    · exact ⟨suffix, answered⟩

end DerwLang.Ecma.TempNames
