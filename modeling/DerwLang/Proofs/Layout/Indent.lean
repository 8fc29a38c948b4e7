/-
**Moving a text one level in, character by character.**

`Text.indent` takes a text apart into lines. Here the same is done from left to right (`deepen`), which fits texts that
are put together from pieces: a line feed is followed by four more spaces, unless the line holds only blanks. Texts that
start and end with something that shows (`Solid`) are what this is for. Main facts:

* `indent_ofList`: `deepen` does what `Text.indent` does, except on the first line;
* `deepen_append`: pieces are moved in one by one;
* `column_after_deepen`: whatever a text does, when it is moved in it ends that much farther to the right.
-/

import DerwLang.Token.Lexer
import DerwLang.Text.Layout
import Mathlib.Data.List.Basic
import Mathlib.Logic.Function.Iterate

namespace DerwLang.Layout

/-- The characters of one level of indentation. -/
def levelChars : List Char := [' ', ' ', ' ', ' ']

/-- The characters with every further line one level in. At the start of a line the blanks that were met are held back
until it is known that the line holds something else. -/
def deepenFrom : Option (List Char) → List Char → List Char
  | none, [] => []
  | none, '\n' :: rest => '\n' :: deepenFrom (some []) rest
  | none, '\r' :: '\n' :: rest => '\n' :: deepenFrom (some []) rest
  | none, c :: rest => c :: deepenFrom none rest
  | some blanks, [] => levelChars ++ blanks
  | some _, '\n' :: rest => '\n' :: deepenFrom (some []) rest
  | some blanks, c :: rest =>
    if Text.isBlank c then deepenFrom (some (blanks ++ [c])) rest
    else levelChars ++ blanks ++ c :: deepenFrom none rest

attribute [local simp] deepenFrom

/-- The characters with every line but the first one level in. -/
def deepen (own : List Char) : List Char :=
  deepenFrom none own

/-- The characters end with one that shows. -/
def Ends (own : List Char) : Prop :=
  ∃ before c, own = before ++ [c] ∧ Text.isBlank c = false

/-- The characters start with one that shows. -/
def Starts (own : List Char) : Prop :=
  ∃ c rest, own = c :: rest ∧ Text.isBlank c = false

/-- The characters start and end with one that shows. -/
def Solid (own : List Char) : Prop :=
  Starts own ∧ Ends own

/-! ## Starts and ends -/

theorem Starts.append {own : List Char} (starts : Starts own) (after : List Char) : Starts (own ++ after) := by
  obtain ⟨c, rest, rfl, visible⟩ := starts
  exact ⟨c, rest ++ after, rfl, visible⟩

theorem Ends.append {own : List Char} (ends : Ends own) (before : List Char) : Ends (before ++ own) := by
  obtain ⟨most, c, rfl, visible⟩ := ends
  exact ⟨before ++ most, c, by simp, visible⟩

theorem Ends.cons {own : List Char} (ends : Ends own) (c : Char) : Ends (c :: own) :=
  ends.append [c]

/-- What is left of characters that end with one that shows ends so too, unless nothing is left. -/
theorem Ends.tail {c : Char} {rest : List Char} (ends : Ends (c :: rest)) :
    Ends rest ∨ (rest = [] ∧ Text.isBlank c = false) := by
  obtain ⟨before, last, same, visible⟩ := ends
  cases before with
  | nil =>
    obtain ⟨rfl, rfl⟩ := List.cons.inj same
    exact .inr ⟨rfl, visible⟩
  | cons first more =>
    obtain ⟨rfl, rfl⟩ := List.cons.inj same
    exact .inl ⟨more, last, rfl, visible⟩

theorem Ends.tail_of_blank {c : Char} {rest : List Char} (ends : Ends (c :: rest)) (blank : Text.isBlank c = true) :
    Ends rest := by
  rcases ends.tail with ends | ⟨-, visible⟩
  · exact ends
  · simp [blank] at visible

theorem not_ends_nil : ¬ Ends [] := by
  rintro ⟨before, c, same, -⟩
  simp at same

theorem feed_blank : Text.isBlank '\n' = true := by decide

theorem return_blank : Text.isBlank '\r' = true := by decide

theorem ends_singleton {c : Char} (visible : Text.isBlank c = false) : Ends [c] :=
  ⟨[], c, rfl, visible⟩

theorem starts_cons {c : Char} (visible : Text.isBlank c = false) (rest : List Char) : Starts (c :: rest) :=
  ⟨c, rest, rfl, visible⟩

theorem solid_of_visible {own : List Char} (some_ : own ≠ []) (visible : ∀ c ∈ own, Text.isBlank c = false) :
    Solid own := by
  constructor
  · cases own with
    | nil => exact absurd rfl some_
    | cons c rest => exact starts_cons (visible c List.mem_cons_self) rest
  · have last : own.dropLast ++ [own.getLast some_] = own := List.dropLast_append_getLast some_
    exact ⟨own.dropLast, own.getLast some_, last.symm, visible _ (List.getLast_mem some_)⟩

/-- What starts one text and ends another starts and ends both together. -/
theorem Solid.between {first second : List Char} (one : Solid first) (two : Solid second) (middle : List Char) :
    Solid (first ++ (middle ++ second)) :=
  ⟨one.1.append _, (two.2.append middle).append first⟩

/-! ## One character at a time -/

/-- A character that is neither a line feed nor a carriage return stays. -/
theorem deepenFrom_none_cons {c : Char} (notFeed : c ≠ '\n') (notReturn : c ≠ '\r') (rest : List Char) :
    deepenFrom none (c :: rest) = c :: deepenFrom none rest := by
  rw [deepenFrom]
  · exact notFeed
  · exact fun _ same => absurd same notReturn

theorem deepenFrom_some_cons {c : Char} (notFeed : c ≠ '\n') (blanks rest : List Char) :
    deepenFrom (some blanks) (c :: rest) =
      if Text.isBlank c then deepenFrom (some (blanks ++ [c])) rest
      else levelChars ++ blanks ++ c :: deepenFrom none rest := by
  rw [deepenFrom]
  exact notFeed

theorem ne_of_visible {c d : Char} (visible : Text.isBlank c = false) (blank : Text.isBlank d = true) : c ≠ d := by
  rintro rfl
  simp [blank] at visible

/-- **Pieces are moved in one by one**, where the first ends with something that shows. -/
theorem deepenFrom_append {state : Option (List Char)} {first : List Char} (ends : Ends first) (second : List Char) :
    deepenFrom state (first ++ second) = deepenFrom state first ++ deepenFrom none second := by
  fun_induction deepenFrom state first with
  | case1 => exact absurd ends not_ends_nil
  | case2 rest step => simp [step (ends.tail_of_blank feed_blank)]
  | case3 rest step =>
    have later : Ends rest := (ends.tail_of_blank return_blank).tail_of_blank feed_blank
    simp [step later]
  | case4 c rest notFeed notReturn step =>
    rcases ends.tail with later | ⟨rfl, visible⟩
    · have same : deepenFrom none (c :: (rest ++ second)) = c :: deepenFrom none (rest ++ second) := by
        rw [deepenFrom]
        · exact notFeed
        · intro more equal
          cases rest with
          | nil => exact absurd later not_ends_nil
          | cons d others => exact fun list => notReturn others equal (by rw [(List.cons.inj list).1])
      rw [List.cons_append, same, step later, List.cons_append]
    · simp [deepenFrom_none_cons (ne_of_visible visible feed_blank) (ne_of_visible visible return_blank)]
  | case5 => exact absurd ends not_ends_nil
  | case6 blanks rest step => simp [step (ends.tail_of_blank feed_blank)]
  | case7 blanks c rest notFeed blank step =>
    rw [List.cons_append, deepenFrom_some_cons notFeed, if_pos blank, step (ends.tail_of_blank blank)]
  | case8 blanks c rest notFeed visible step =>
    rw [List.cons_append, deepenFrom_some_cons notFeed, if_neg visible]
    rcases ends.tail with later | ⟨rfl, -⟩
    · simp [step later]
    · simp

theorem deepen_append {first : List Char} (ends : Ends first) (second : List Char) :
    deepen (first ++ second) = deepen first ++ deepen second :=
  deepenFrom_append ends second

@[simp]
theorem deepen_nil : deepen [] = [] := rfl

@[simp]
theorem deepen_space (rest : List Char) : deepen (' ' :: rest) = ' ' :: deepen rest :=
  deepenFrom_none_cons (by decide) (by decide) rest

/-- Characters without a line feed stay as they are. -/
theorem deepen_flat {own : List Char} (flat : '\n' ∉ own) : deepen own = own := by
  have all : ∀ own : List Char, '\n' ∉ own → deepenFrom none own = own := by
    intro own
    induction own with
    | nil => exact fun _ => rfl
    | cons c rest step =>
      intro flat
      rw [List.mem_cons, not_or] at flat
      rw [deepenFrom, step flat.2]
      · exact Ne.symm flat.1
      · rintro more rfl rfl
        simp at flat
  exact all own flat

@[simp]
theorem iterate_flat {own : List Char} (flat : '\n' ∉ own) (levels : Nat) : deepen^[levels] own = own :=
  Function.iterate_fixed (deepen_flat flat) levels

/-- The blanks at the start of a line are held back. -/
theorem deepenFrom_spaces (blanks : List Char) (count : Nat) {rest : List Char} (starts : Starts rest) :
    deepenFrom (some blanks) (List.replicate count ' ' ++ rest) =
      levelChars ++ blanks ++ List.replicate count ' ' ++ deepenFrom none rest := by
  induction count generalizing blanks with
  | zero =>
    obtain ⟨c, more, rfl, visible⟩ := starts
    have notFeed := ne_of_visible visible feed_blank
    rw [List.replicate_zero, List.nil_append, deepenFrom_some_cons notFeed, if_neg (by simp [visible]),
      deepenFrom_none_cons notFeed (ne_of_visible visible return_blank), List.append_nil]
  | succ count step =>
    have blank : Text.isBlank ' ' = true := by decide
    rw [List.replicate_succ, List.cons_append, deepenFrom_some_cons (by decide), if_pos blank, step]
    simp

/-- A new line with something on it is four spaces farther in. -/
theorem deepen_feed (count : Nat) {rest : List Char} (starts : Starts rest) :
    deepen ('\n' :: (List.replicate count ' ' ++ rest)) = '\n' :: (List.replicate (count + 4) ' ' ++ deepen rest) := by
  rw [deepen, deepenFrom, deepenFrom_spaces [] count starts]
  simp [levelChars, deepen, List.replicate_succ]

/-- The first character stays where it is. -/
theorem Starts.deepen {own : List Char} (starts : Starts own) : Starts (deepen own) := by
  obtain ⟨c, rest, rfl, visible⟩ := starts
  rw [Layout.deepen,
    deepenFrom_none_cons (ne_of_visible visible feed_blank) (ne_of_visible visible return_blank)]
  exact starts_cons visible _

/-- The last character stays the last one. -/
theorem Ends.deepen {own : List Char} (ends : Ends own) : Ends (deepen own) := by
  have all : ∀ state : Option (List Char), Ends (deepenFrom state own) := by
    intro state
    fun_induction deepenFrom state own with
    | case1 => exact absurd ends not_ends_nil
    | case2 rest step => exact (step (ends.tail_of_blank feed_blank)).cons '\n'
    | case3 rest step =>
      exact (step ((ends.tail_of_blank return_blank).tail_of_blank feed_blank)).cons '\n'
    | case4 c rest _ _ step =>
      rcases ends.tail with later | ⟨rfl, visible⟩
      · exact (step later).cons c
      · exact ends_singleton visible
    | case5 => exact absurd ends not_ends_nil
    | case6 blanks rest step => exact (step (ends.tail_of_blank feed_blank)).cons '\n'
    | case7 blanks c rest _ blank step => exact step (ends.tail_of_blank blank)
    | case8 blanks c rest _ visible step =>
      refine Ends.append ?_ (levelChars ++ blanks)
      rcases ends.tail with later | ⟨rfl, shown⟩
      · exact (step later).cons c
      · exact ends_singleton shown
  exact all none

theorem Solid.deepen {own : List Char} (solid : Solid own) : Solid (deepen own) :=
  ⟨solid.1.deepen, solid.2.deepen⟩

theorem Solid.iterate {own : List Char} (solid : Solid own) (levels : Nat) : Solid (Layout.deepen^[levels] own) := by
  induction levels with
  | zero => exact solid
  | succ levels step =>
    rw [Function.iterate_succ_apply']
    exact step.deepen

/-! ## Line by line -/

/-- The line one level in, empty when it holds only blanks. -/
def deepLine (line : List Char) : List Char :=
  if line.all Text.isBlank then [] else levelChars ++ line

/-- The first line, of which some blanks may be held back already. -/
def firstLine : Option (List Char) → List Char → List Char
  | none, line => line
  | some blanks, line => deepLine (blanks ++ line)

theorem linesOf_cons {c : Char} {rest first : List Char} {more : List (List Char)} (notFeed : c ≠ '\n')
    (notReturn : ∀ others, c = '\r' → rest = '\n' :: others → False) (lines : Text.linesOf rest = first :: more) :
    Text.linesOf (c :: rest) = (c :: first) :: more := by
  rw [Text.linesOf, lines]
  · exact notFeed
  · exact notReturn

theorem linesOf_singleton {c : Char} (visible : Text.isBlank c = false) : Text.linesOf [c] = [[c]] := by
  rw [Text.linesOf]
  · rfl
  · exact ne_of_visible visible feed_blank
  · simp

/-- Lines hold no line feeds. -/
theorem flat_linesOf (own : List Char) : ∀ line ∈ Text.linesOf own, '\n' ∉ line := by
  fun_induction Text.linesOf own with
  | case1 => simp
  | case2 rest step => exact List.forall_mem_cons.mpr ⟨List.not_mem_nil, step⟩
  | case3 rest step => exact List.forall_mem_cons.mpr ⟨List.not_mem_nil, step⟩
  | case4 c rest notFeed _ none_ step =>
    refine List.forall_mem_singleton.mpr fun feed => notFeed ?_
    exact (List.mem_singleton.mp feed).symm
  | case5 c rest notFeed _ first more some_ step =>
    rw [some_] at step
    obtain ⟨flat, others⟩ := List.forall_mem_cons.mp step
    refine List.forall_mem_cons.mpr ⟨fun feed => ?_, others⟩
    exact (List.mem_cons.mp feed).elim (fun same => notFeed same.symm) flat

/-- **Going from left to right does what going line by line does.** -/
theorem linesOf_deepenFrom {state : Option (List Char)} {own : List Char} (ends : Ends own)
    (held : (state.getD []).all Text.isBlank = true) :
    ∃ first more, Text.linesOf own = first :: more ∧
      deepenFrom state own = firstLine state first ++ more.flatMap ('\n' :: deepLine ·) := by
  fun_induction deepenFrom state own with
  | case1 => exact absurd ends not_ends_nil
  | case2 rest step =>
    obtain ⟨first, more, lines, same⟩ := step (ends.tail_of_blank feed_blank) rfl
    refine ⟨[], first :: more, by rw [Text.linesOf, lines], ?_⟩
    simp [same, firstLine]
  | case3 rest step =>
    obtain ⟨first, more, lines, same⟩ := step ((ends.tail_of_blank return_blank).tail_of_blank feed_blank) rfl
    refine ⟨[], first :: more, by rw [Text.linesOf, lines], ?_⟩
    simp [same, firstLine]
  | case4 c rest notFeed notReturn step =>
    rcases ends.tail with later | ⟨rfl, visible⟩
    · obtain ⟨first, more, lines, same⟩ := step later rfl
      refine ⟨c :: first, more, linesOf_cons notFeed notReturn lines, ?_⟩
      simp [same, firstLine]
    · exact ⟨[c], [], linesOf_singleton visible, by simp [firstLine]⟩
  | case5 => exact absurd ends not_ends_nil
  | case6 blanks rest step =>
    obtain ⟨first, more, lines, same⟩ := step (ends.tail_of_blank feed_blank) rfl
    refine ⟨[], first :: more, by rw [Text.linesOf, lines], ?_⟩
    have empty : deepLine blanks = [] := if_pos held
    simp [same, firstLine, empty]
  | case7 blanks c rest notFeed blank step =>
    have allHeld : ((some (blanks ++ [c])).getD []).all Text.isBlank = true := by
      simpa [blank] using held
    obtain ⟨first, more, lines, same⟩ := step (ends.tail_of_blank blank) allHeld
    by_cases returned : ∃ others, c = '\r' ∧ rest = '\n' :: others
    · obtain ⟨others, rfl, rfl⟩ := returned
      rw [Text.linesOf] at lines
      obtain ⟨rfl, rfl⟩ := List.cons.inj lines
      refine ⟨[], Text.linesOf others, by rw [Text.linesOf], ?_⟩
      have empty : deepLine (blanks ++ ['\r']) = [] := if_pos allHeld
      have before : deepLine blanks = [] := if_pos held
      simp [same, firstLine, empty, before]
    · refine ⟨c :: first, more, linesOf_cons notFeed (fun others one two => returned ⟨others, one, two⟩) lines, ?_⟩
      simp [same, firstLine]
  | case8 blanks c rest notFeed visible step =>
    have shown : Text.isBlank c = false := by simpa using visible
    have whole : ∀ first : List Char, deepLine (blanks ++ c :: first) = levelChars ++ (blanks ++ c :: first) := by
      intro first
      refine if_neg ?_
      simp [shown]
    rcases ends.tail with later | ⟨rfl, -⟩
    · obtain ⟨first, more, lines, same⟩ := step later rfl
      refine ⟨c :: first, more, linesOf_cons notFeed ?_ lines, ?_⟩
      · rintro others rfl -
        simp [return_blank] at shown
      · simp [same, firstLine, whole]
    · exact ⟨[c], [], linesOf_singleton shown, by simp [firstLine, whole]⟩

theorem toList_indentLine (line : List Char) : (Text.indentLine (String.ofList line)).toList = deepLine line := by
  simp only [Text.indentLine, Text.isBlankLine, deepLine, String.toList_ofList]
  split
  · rfl
  · rw [String.toList_append]
    simp [Text.indentation, levelChars]

/-- What stands between is in front of every piece but the first. -/
theorem intercalate_cons {α : Type} (between first : List α) (rest : List (List α)) :
    List.intercalate between (first :: rest) = first ++ rest.flatMap (between ++ ·) := by
  induction rest generalizing first with
  | nil => simp
  | cons next rest step => rw [List.intercalate_cons_cons, step]; simp

/-- **`Text.indent` moves the first line in, and `deepen` the others.** -/
theorem indent_ofList {own : List Char} (solid : Solid own) :
    (Text.indent (String.ofList own)).toList = levelChars ++ deepen own := by
  obtain ⟨first, more, lines, same⟩ := @linesOf_deepenFrom none own solid.2 rfl
  have start : deepLine first = levelChars ++ first := by
    obtain ⟨c, rest, rfl, visible⟩ := solid.1
    rw [deepenFrom_none_cons (ne_of_visible visible feed_blank) (ne_of_visible visible return_blank)] at same
    refine if_neg ?_
    cases first with
    | nil =>
      cases more with
      | nil => simp [firstLine] at same
      | cons second others =>
        have feed : c = '\n' := by simpa [firstLine] using (List.cons.inj same).1
        exact absurd feed (ne_of_visible visible feed_blank)
    | cons d others =>
      have equal : c = d := by simpa [firstLine] using (List.cons.inj same).1
      simp [← equal, visible]
  rw [Text.indent, Text.lines, String.toList_ofList, lines, Text.unlines, String.toList_intercalate, deepen, same]
  simp only [List.map_cons, List.map_map, Function.comp_def, toList_indentLine]
  rw [intercalate_cons, start, List.flatMap_map, firstLine, List.append_assoc]
  rfl

/-! ## Where a text ends -/

theorem after_append (position : Position) (first second : List Char) :
    position.after (first ++ second) = (position.after first).after second :=
  List.foldl_append

@[simp]
theorem after_nil (position : Position) : position.after [] = position := rfl

theorem after_cons (position : Position) (c : Char) (rest : List Char) :
    position.after (c :: rest) = (position.step c).after rest := rfl

/-- Characters without a line feed move on by their number. -/
theorem after_flat {own : List Char} (flat : '\n' ∉ own) (position : Position) :
    position.after own = ⟨position.line, position.column + own.length⟩ := by
  induction own generalizing position with
  | nil => rfl
  | cons c rest step =>
    rw [List.mem_cons, not_or] at flat
    rw [after_cons, step flat.2]
    simp [Position.step, Ne.symm flat.1]
    omega

/-- A position is on the line after as many line feeds as there are. -/
theorem line_after (position : Position) (own : List Char) :
    (position.after own).line = position.line + own.count '\n' := by
  induction own generalizing position with
  | nil => rfl
  | cons c rest step =>
    rw [after_cons, step]
    by_cases feed : c = '\n'
    · simp [Position.step, feed]
      omega
    · simp [Position.step, feed]

theorem column_step_feed (position : Position) : (position.step '\n').column = 1 := rfl

theorem deepenFrom_none_flat {own : List Char} (flat : '\n' ∉ own) : deepenFrom none own = own :=
  deepen_flat flat

/-- **A text that is moved in ends four columns farther to the right**, where its last line is one that was moved. -/
theorem column_deepenFrom {state : Option (List Char)} {own : List Char} (ends : Ends own)
    (held : '\n' ∉ state.getD []) (moved : state = none → '\n' ∈ own) {position other : Position}
    (same : position.column = other.column ∨ '\n' ∈ own) :
    (position.after (deepenFrom state own)).column = (other.after (state.getD [] ++ own)).column + 4 := by
  fun_induction deepenFrom state own generalizing position other with
  | case1 => exact absurd ends not_ends_nil
  | case2 rest step =>
    exact step (ends.tail_of_blank feed_blank) (by simp) (by simp) (.inl rfl)
  | case3 rest step =>
    have later : Ends rest := (ends.tail_of_blank return_blank).tail_of_blank feed_blank
    exact step later (by simp) (by simp) (.inl rfl)
  | case4 c rest notFeed notReturn step =>
    have member : '\n' ∈ rest := (List.mem_cons.mp (moved rfl)).resolve_left fun equal => notFeed equal.symm
    rcases ends.tail with later | ⟨rfl, -⟩
    · exact step later (by simp) (fun _ => member) (.inr member)
    · simp at member
  | case5 => exact absurd ends not_ends_nil
  | case6 blanks rest step =>
    rw [after_cons, Option.getD_some, after_append, after_cons]
    exact step (ends.tail_of_blank feed_blank) (by simp) (by simp) (.inl rfl)
  | case7 blanks c rest notFeed blank step =>
    have later : Ends rest := ends.tail_of_blank blank
    have notHeld : '\n' ∉ blanks ++ [c] := by
      rw [List.mem_append, List.mem_singleton]
      rintro (member | equal)
      · exact held member
      · exact notFeed equal.symm
    have further : position.column = other.column ∨ '\n' ∈ rest :=
      same.imp_right fun member => (List.mem_cons.mp member).resolve_left fun equal => notFeed equal.symm
    have result := step later notHeld (by simp) further
    simpa using result
  | case8 blanks c rest notFeed visible step =>
    have notC : c ≠ '\n' := notFeed
    by_cases member : '\n' ∈ rest
    · have later : Ends rest := by
        rcases ends.tail with later | ⟨rfl, -⟩
        · exact later
        · simp at member
      rw [after_append, after_cons, Option.getD_some, after_append other, after_cons]
      exact step later (by simp) (fun _ => member) (.inr member)
    · have flat : '\n' ∉ blanks ++ c :: rest := by
        rw [List.mem_append, List.mem_cons]
        rintro (inBlanks | equal | inRest)
        · exact held inBlanks
        · exact notC equal.symm
        · exact member inRest
      have equal : position.column = other.column := by
        refine same.resolve_right fun inOwn => member ?_
        exact (List.mem_cons.mp inOwn).resolve_left fun equal => notC equal.symm
      have spaces : '\n' ∉ levelChars := by decide
      rw [deepenFrom_none_flat member, List.append_assoc, after_append, after_flat spaces, after_flat flat,
        Option.getD_some, after_flat flat]
      simp only [equal, levelChars, List.length_cons, List.length_nil]
      omega

theorem column_deepen {own : List Char} (ends : Ends own) (feed : '\n' ∈ own) (position other : Position) :
    (position.after (deepen own)).column = (other.after own).column + 4 :=
  column_deepenFrom ends (by simp) (fun _ => feed) (.inr feed)

/-- A text keeps its line feeds when it is moved in. -/
theorem feed_mem_deepen {own : List Char} : '\n' ∈ deepen own ↔ '\n' ∈ own := by
  constructor
  · contrapose!
    intro flat
    rwa [deepen_flat flat]
  · have all : ∀ state : Option (List Char), '\n' ∈ own → '\n' ∈ deepenFrom state own := by
      intro state feed
      fun_induction deepenFrom state own with
      | case1 => simp at feed
      | case2 => simp
      | case3 => simp
      | case4 c rest notFeed _ step =>
        refine List.mem_cons_of_mem _ (step ?_)
        exact (List.mem_cons.mp feed).resolve_left fun equal => notFeed equal.symm
      | case5 => simp at feed
      | case6 => simp
      | case7 blanks c rest notFeed _ step =>
        exact step ((List.mem_cons.mp feed).resolve_left fun equal => notFeed equal.symm)
      | case8 blanks c rest notFeed _ step =>
        refine List.mem_append_right _ (List.mem_cons_of_mem _ (step ?_))
        exact (List.mem_cons.mp feed).resolve_left fun equal => notFeed equal.symm
    exact all none

/-- Where a text ends on its line does not depend on where it starts, once it has a line feed. -/
theorem column_of_feed {own : List Char} (feed : '\n' ∈ own) (position other : Position) :
    (position.after own).column = (other.after own).column := by
  induction own generalizing position other with
  | nil => simp at feed
  | cons c rest step =>
    rw [after_cons, after_cons]
    by_cases member : '\n' ∈ rest
    · exact step member _ _
    · have same : c = '\n' := ((List.mem_cons.mp feed).resolve_right member).symm
      rw [same, after_flat member, after_flat member]
      rfl

/-- A text that is moved in some levels ends that much farther to the right. -/
theorem column_iterate {own : List Char} (solid : Solid own) (feed : '\n' ∈ own) (levels : Nat)
    (position other : Position) :
    (position.after (deepen^[levels] own)).column = (other.after own).column + 4 * levels := by
  have both : ∀ levels (position : Position), '\n' ∈ deepen^[levels] own ∧
      (position.after (deepen^[levels] own)).column = (other.after own).column + 4 * levels := by
    intro levels
    induction levels with
    | zero =>
      intro position
      exact ⟨feed, column_of_feed feed position other⟩
    | succ levels step =>
      intro position
      rw [Function.iterate_succ_apply']
      have before := step position
      refine ⟨feed_mem_deepen.mpr before.1, ?_⟩
      rw [column_deepen (solid.iterate levels).2 before.1 position position, before.2]
      omega
  exact (both levels position).2

end DerwLang.Layout
