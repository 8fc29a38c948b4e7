/-
**Clean paths: their order, their places, and their extensions.**

* `before_trans`, `before_of_ne`, `ne_of_before`: paths are in a strict order, in which any two that differ come one before
  the other;
* `place_ofText`: the path that a text writes leads where the text leads;
* `relativeTo?_down`: the way from a base to what lies below it;
* `withExtension_eq_iff`: two paths are the same with another extension exactly if they name files in one directory that
  only differ in their extensions.
-/

import DerwLang.CommandLine.Path
import DerwLang.Proofs.Files.Frame
import Mathlib.Data.String.Basic
import Mathlib.Logic.Function.Iterate

namespace DerwLang.Path

open CommandLine (FileTree)

/-! ### Order -/

section Order

variable {first second third : Path}

theorem namesBefore_iff (names others : List String) : namesBefore names others = true ↔ names < others := by
  fun_induction namesBefore names others with
  | case1 names => simp
  | case2 name others => simp
  | case3 a names b others step => simp [step, List.cons_lt_cons_iff]

theorem lt_or_lt_of_ne {names others : List String} (differ : names ≠ others) : names < others ∨ others < names := by
  induction names generalizing others with
  | nil =>
    cases others with
    | nil => exact absurd rfl differ
    | cons name rest => exact .inl (List.nil_lt_cons _ _)
  | cons name rest step =>
    cases others with
    | nil => exact .inr (List.nil_lt_cons _ _)
    | cons other more =>
      rw [List.cons_lt_cons_iff, List.cons_lt_cons_iff]
      rcases lt_trichotomy name other with less | rfl | greater
      · exact .inl (.inl less)
      · exact (step fun same => differ (by rw [same])).imp (fun less => .inr ⟨rfl, less⟩) fun less => .inr ⟨rfl, less⟩
      · exact .inr (.inl greater)

/-- A path above the directory one stands in comes before another one by its names, or by levels up that come before the
names of the other. -/
theorem before_above (levels otherLevels : Nat) (names others : List String) :
    before ⟨.above levels, names⟩ ⟨.above otherLevels, others⟩ = true ↔
      (levels = otherLevels ∧ names < others) ∨ (levels < otherLevels ∧ names = []) ∨
        (otherLevels < levels ∧ others ≠ []) := by
  unfold before
  dsimp only
  split
  · rename_i same
    obtain rfl : levels = otherLevels := eq_of_beq same
    simp [namesBefore_iff]
  · rename_i differ
    have apart : levels ≠ otherLevels := fun same => differ (by simp [same])
    split
    · rename_i less
      simp [apart, less, Nat.not_lt.mpr (Nat.le_of_lt less)]
    · rename_i notLess
      have greater : otherLevels < levels := by omega
      simp [apart, greater, notLess]

theorem before_root (names others : List String) : before ⟨.root, names⟩ ⟨.root, others⟩ = true ↔ names < others :=
  namesBefore_iff names others

theorem ne_of_before (earlier : first.before second = true) : first ≠ second := by
  rintro rfl
  obtain ⟨_ | levels, names⟩ := first
  · exact List.lt_irrefl _ ((before_root _ _).mp earlier)
  · rcases (before_above _ _ _ _).mp earlier with ⟨-, less⟩ | ⟨less, -⟩ | ⟨less, -⟩
    · exact List.lt_irrefl _ less
    · omega
    · omega

theorem before_of_ne (differ : first ≠ second) (notLater : first.before second = false) : second.before first = true := by
  obtain ⟨_ | levels, names⟩ := first <;> obtain ⟨_ | otherLevels, others⟩ := second
  · have apart : names ≠ others := fun same => differ (by rw [same])
    refine (before_root _ _).mpr ((lt_or_lt_of_ne apart).resolve_left fun less => ?_)
    simp [(before_root _ _).mpr less] at notLater
  · cases notLater
  · rfl
  · have notBefore := mt (before_above levels otherLevels names others).mpr (by simp [notLater])
    rw [before_above]
    by_cases same : levels = otherLevels
    · subst same
      have apart : names ≠ others := fun same => differ (by rw [same])
      exact .inl ⟨rfl, (lt_or_lt_of_ne apart).resolve_left fun less => notBefore (.inl ⟨rfl, less⟩)⟩
    · grind

theorem before_trans (earlier : first.before second = true) (later : second.before third = true) :
    first.before third = true := by
  obtain ⟨_ | levels, names⟩ := first <;> obtain ⟨_ | middleLevels, middle⟩ := second <;>
    obtain ⟨_ | otherLevels, others⟩ := third
  · exact (before_root _ _).mpr (List.lt_trans ((before_root _ _).mp earlier) ((before_root _ _).mp later))
  · rfl
  · cases later
  · rfl
  · cases earlier
  · cases earlier
  · cases later
  · rw [before_above] at earlier later ⊢
    have more : ∀ {names : List String}, names < others → others ≠ [] := by
      rintro names less rfl
      exact List.not_lt_nil _ less
    have empty : ∀ {names : List String}, names = [] → others ≠ [] → names < others := by
      rintro names rfl some_
      obtain ⟨name, rest, rfl⟩ := List.exists_cons_of_ne_nil some_
      exact List.nil_lt_cons _ _
    rcases earlier with ⟨rfl, less⟩ | ⟨less, none⟩ | ⟨less, some_⟩
    · rcases later with ⟨rfl, further⟩ | ⟨further, none⟩ | ⟨further, some_⟩
      · exact .inl ⟨rfl, List.lt_trans less further⟩
      · rw [none] at less
        exact absurd less (List.not_lt_nil _)
      · exact .inr (.inr ⟨further, some_⟩)
    · rcases later with ⟨rfl, -⟩ | ⟨further, -⟩ | ⟨-, some_⟩
      · exact .inr (.inl ⟨less, none⟩)
      · exact .inr (.inl ⟨less.trans further, none⟩)
      · rcases Nat.lt_trichotomy levels otherLevels with fewer | same | greater
        · exact .inr (.inl ⟨fewer, none⟩)
        · exact .inl ⟨same, empty none some_⟩
        · exact .inr (.inr ⟨greater, some_⟩)
    · rcases later with ⟨rfl, further⟩ | ⟨-, none⟩ | ⟨further, others_⟩
      · exact .inr (.inr ⟨less, more further⟩)
      · exact absurd none some_
      · exact .inr (.inr ⟨further.trans less, others_⟩)

end Order

/-! ### Places -/

/-- The place that a path leads to for someone who stands somewhere. -/
def place (location : List String) : Path → List String
  | ⟨.root, names⟩ => names
  | ⟨.above levels, names⟩ => List.dropLast^[levels] location ++ names

theorem place_up (location : List String) (path : Path) : path.up.place location = (path.place location).dropLast := by
  obtain ⟨_ | levels, names⟩ := path
  · rfl
  · cases names with
    | nil =>
      simp only [up, place, List.append_nil]
      exact Function.iterate_succ_apply' _ _ _
    | cons name rest => exact (List.dropLast_append_of_ne_nil (List.cons_ne_nil _ _)).symm

theorem place_down (location : List String) (path : Path) (names : List String) :
    (path.down names).place location = path.place location ++ names := by
  obtain ⟨_ | levels, above⟩ := path
  · rfl
  · exact (List.append_assoc _ _ _).symm

/-- A path that goes on leads to the place one segment further. -/
theorem place_enter (location : List String) (path : Path) (segment : String) :
    (path.enter segment).place location = FileTree.goOn (path.place location) segment := by
  unfold enter FileTree.goOn
  split
  · rfl
  · split
    · exact place_up location path
    · exact place_down location path [segment]

/-- **The path that a text writes leads where the text leads.** -/
theorem place_ofText (tree : FileTree) (text : String) : (ofText text).place tree.location = tree.landing text := by
  have fold : ∀ (segments : List String) (start : Path),
      (segments.foldl enter start).place tree.location = segments.foldl FileTree.goOn (start.place tree.location) := by
    intro segments
    induction segments with
    | nil => exact fun _ => rfl
    | cons segment rest step =>
      intro start
      rw [List.foldl_cons, List.foldl_cons, step, place_enter]
  unfold ofText FileTree.landing FileTree.origin
  rw [fold]
  congr 1
  split
  · rfl
  · exact List.append_nil _

/-- A path to a file has a name. -/
theorem names_ne_nil_of_file {tree : FileTree} (sound : tree.Sound) {text : String}
    (file : tree.kindOf text = .ok .file) : (ofText text).names ≠ [] := by
  intro none
  unfold FileTree.kindOf at file
  cases found : tree.find text with
  | error error =>
    rw [found] at file
    cases file
  | ok here =>
    obtain ⟨at_, entry⟩ := here
    obtain ⟨same, stands⟩ := FileTree.find_ok found
    have above : ∀ levels, tree.entryAt? (List.dropLast^[levels] tree.location) = some .directory := by
      intro levels
      induction levels with
      | zero => exact sound.standing
      | succ levels step =>
        rw [Function.iterate_succ_apply']
        exact sound.dropLast step
    have directory : tree.entryAt? at_ = some .directory := by
      rw [same, ← place_ofText]
      revert none
      cases ofText text with
      | mk start names =>
        rintro rfl
        cases start with
        | root => exact FileTree.entryAt?_root
        | above levels =>
          rw [place, List.append_nil]
          exact above levels
    obtain rfl : entry = .directory := Option.some.inj (stands.symm.trans directory)
    rw [found] at file
    cases file

/-! ### Ways from a base -/

theorem wayBetween_append (base names : List String) : wayBetween base (base ++ names) = ⟨.above 0, names⟩ := by
  induction base with
  | nil => cases names <;> rfl
  | cons name rest step =>
    rw [List.cons_append, wayBetween, if_pos (by simp)]
    exact step

/-- **The way from a base to what lies below it** goes down the names of what lies there. -/
theorem relativeTo?_down (base : Path) (names : List String) : (base.down names).relativeTo? base = some ⟨.above 0, names⟩ := by
  obtain ⟨_ | levels, above⟩ := base
  · exact congrArg some (wayBetween_append above names)
  · simp [relativeTo?, down, wayBetween_append]

theorem fileName?_down (base : Path) {names : List String} (some_ : names ≠ []) :
    (base.down names).fileName? = names.getLast? := by
  simp [down, fileName?, List.getLast?_append, List.getLast?_eq_some_getLast some_]

theorem parent_down (base : Path) {names : List String} (some_ : names ≠ []) :
    (base.down names).parent = base.down names.dropLast :=
  congrArg (Path.mk base.start) (List.dropLast_append_of_ne_nil some_)

/-- A path goes down from its directory to its name. -/
theorem eq_down_of_fileName? {path : Path} {name : String} (last : path.fileName? = some name) :
    path = path.parent.down [name] := by
  obtain ⟨above, same⟩ := List.getLast?_eq_some_iff.mp last
  rw [parent, down, same, List.dropLast_concat, ← same]

theorem down_inj (base : Path) {names others : List String} : base.down names = base.down others ↔ names = others := by
  simp [down]

/-! ### Extensions -/

/-- The name of a file without its extension. -/
def stem? (path : Path) : Option String :=
  path.fileName?.map fun name => (cutName name).1

/-- The name of the file is that of a directory once its extension is off: it is one or two dots and an extension. -/
def isDotted (path : Path) : Bool :=
  path.fileName?.any fun name => (cutName name).1 == "." && (cutName name).2.isSome

/-- A name that is cut is its two parts with a dot between them. -/
theorem eq_of_cutName {name stem ending : String} (cut : cutName name = (stem, some ending)) :
    name = stem ++ "." ++ ending := by
  unfold cutName at cut
  dsimp only at cut
  split at cut
  · rename_i dot c rest split
    obtain ⟨rfl, same⟩ := Prod.mk.inj cut
    obtain rfl := Option.some.inj same
    have whole := List.takeWhile_append_dropWhile (p := (· != '.')) (l := name.toList.reverse)
    have isDot : dot = '.' := by
      have head := List.head?_dropWhile_not (· != '.') name.toList.reverse
      rw [split] at head
      simpa using head
    rw [split, isDot] at whole
    rw [← String.toList_inj, ← List.reverse_inj]
    refine whole.symm.trans ?_
    simp
  · cases cut

/-- A name that is not cut is its stem. -/
theorem eq_of_uncut {name stem : String} (cut : cutName name = (stem, none)) : name = stem := by
  unfold cutName at cut
  dsimp only at cut
  split at cut
  · cases cut
  · exact (Prod.mk.inj cut).1

/-- A stem with a dot and an extension behind it is cut there, if there is no further dot. -/
theorem cutName_append {stem ending : String} (some_ : stem ≠ "") (flat : '.' ∉ ending.toList) :
    cutName (stem ++ "." ++ ending) = (stem, some ending) := by
  have stemChars : stem.toList.reverse ≠ [] := by simpa using some_
  obtain ⟨c, rest, reversed⟩ := List.exists_cons_of_ne_nil stemChars
  have chars : (stem ++ "." ++ ending).toList.reverse = ending.toList.reverse ++ '.' :: c :: rest := by
    rw [String.toList_append, String.toList_append, List.reverse_append, List.reverse_append, reversed]
    rfl
  have noDot : ∀ d ∈ ending.toList.reverse, (d != '.') = true := by
    intro d member
    rw [bne_iff_ne]
    rintro rfl
    exact flat (List.mem_reverse.mp member)
  have left : (ending.toList.reverse ++ '.' :: c :: rest).dropWhile (· != '.') = '.' :: c :: rest := by
    rw [List.dropWhile_append_of_pos noDot]
    rfl
  have taken : (ending.toList.reverse ++ '.' :: c :: rest).takeWhile (· != '.') = ending.toList.reverse := by
    rw [List.takeWhile_append_of_pos noDot]
    exact List.append_nil _
  unfold cutName
  dsimp only
  rw [chars, left, taken]
  show (String.ofList (c :: rest).reverse, some (String.ofList ending.toList.reverse.reverse)) = _
  rw [← reversed, List.reverse_reverse, List.reverse_reverse, String.ofList_toList, String.ofList_toList]

/-- The stem of a name holds something. -/
theorem cutName_ne_empty {name : String} (some_ : name ≠ "") : (cutName name).1 ≠ "" := by
  unfold cutName
  dsimp only
  split
  · simp
  · exact some_

theorem exists_stem {path : Path} (named : path.names ≠ []) : ∃ stem, path.stem? = some stem :=
  ⟨_, by rw [stem?, fileName?, List.getLast?_eq_some_getLast named, Option.map_some]⟩

/-- Another extension takes the place of that which the name has. -/
theorem withExtension_eq {path : Path} {stem : String} (named : path.stem? = some stem) (plain : path.isDotted = false)
    (ending : String) : path.withExtension ending = path.parent.down [stem ++ "." ++ ending] := by
  unfold stem? at named
  unfold isDotted at plain
  unfold withExtension
  cases name : path.fileName? with
  | none =>
    rw [name] at named
    cases named
  | some last =>
    rw [name] at named plain
    obtain rfl := Option.some.inj named
    rw [Option.map_some]
    split
    · rename_i absurd_
      cases absurd_
    · rename_i ending same
      rw [Option.any_some, Option.some.inj same] at plain
      cases plain
    · rename_i stem rest _ same
      show path.parent.down [stem ++ "." ++ ending] = path.parent.down [(cutName last).1 ++ "." ++ ending]
      rw [Option.some.inj same]

/-- Names with one extension are one if their stems are. -/
theorem stem_inj {stem other ending : String} (same : stem ++ "." ++ ending = other ++ "." ++ ending) : stem = other := by
  have chars := congrArg String.toList same
  rw [String.toList_append, String.toList_append, String.toList_append, String.toList_append] at chars
  exact String.toList_inj.mp (List.append_cancel_right (List.append_cancel_right chars))

/-- **Two paths are the same with another extension** exactly if they name files in one directory that differ at most in
their extensions. -/
theorem withExtension_eq_iff {first second : Path} (named : first.names ≠ []) (namedToo : second.names ≠ [])
    (plain : first.isDotted = false) (plainToo : second.isDotted = false) (ending : String) :
    first.withExtension ending = second.withExtension ending ↔
      first.parent = second.parent ∧ first.stem? = second.stem? := by
  obtain ⟨stem, same⟩ := exists_stem named
  obtain ⟨stemToo, sameToo⟩ := exists_stem namedToo
  rw [withExtension_eq same plain, withExtension_eq sameToo plainToo, same, sameToo]
  constructor
  · intro equal
    obtain ⟨start, names⟩ := Path.mk.inj equal
    obtain ⟨above, last⟩ := List.append_inj' names rfl
    exact ⟨congrArg₂ Path.mk start above, by rw [stem_inj (List.cons.inj last).1]⟩
  · rintro ⟨parents, stems⟩
    rw [parents, Option.some.inj stems]

end DerwLang.Path
