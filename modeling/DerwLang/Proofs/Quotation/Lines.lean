/-
**A text that is laid out again with what surrounds it.**

A text stands somewhere in a longer one, which is cut into lines, and the lines are moved in. What becomes of it: its first
line stays as it is, and each further line is one level farther in. Main facts:

* `spans_lines`: in the lines of a text stand those of all that is part of it, the first and the last one not alone;
* `Spans.indent`, `Spans.indentTail`: moving lines in moves the further lines of what stands in them;
* `toList_indentTail`: so does `Text.indentTail`.

Nothing that stands on a single line changes. Carriage returns at the ends of lines get lost, so texts that hold some are
left out (`Lined`).
-/

import DerwLang.Proofs.Layout.Indent

namespace DerwLang.Layout

/-! ## Texts by their lines -/

/-- The characters may be a line before a line feed. -/
def Smooth (line : List Char) : Prop :=
  '\n' ∉ line ∧ line.getLast? ≠ some '\r'

/-- The lines with line feeds between them. -/
def joinLines (first : List Char) (more : List (List Char)) : List Char :=
  first ++ more.flatMap ('\n' :: ·)

/-- The characters are lines with line feeds between them. -/
def Lined (own : List Char) : Prop :=
  ∃ first more, own = joinLines first more ∧ ∀ line ∈ first :: more, Smooth line

/-- The first and the last of the lines with something in front of it and behind it. -/
def spread (left first : List Char) (more : List (List Char)) (right : List Char) : List (List Char) :=
  match more with
  | [] => [left ++ first ++ right]
  | next :: rest => (left ++ first) :: spread [] next rest right

section Lines

variable {own first next line : List Char} {more rest : List (List Char)}

theorem joinLines_cons (first next : List Char) (rest : List (List Char)) :
    joinLines first (next :: rest) = first ++ '\n' :: joinLines next rest := by
  simp [joinLines]

/-- The last line shows something where the whole text ends with something that shows. -/
theorem Ends.last_lines (ends : Ends (joinLines first (next :: rest))) : Ends (joinLines next rest) := by
  rw [joinLines_cons] at ends
  obtain ⟨before, c, same, visible⟩ := ends
  have some_ : joinLines next rest ≠ [] := by
    intro none
    rw [none] at same
    obtain ⟨-, feed⟩ := List.append_inj' same rfl
    rw [← (List.cons.inj feed).1] at visible
    exact absurd feed_blank (by simp [visible])
  have last : (joinLines next rest).getLast some_ = c := by
    have whole := congrArg List.getLast? same
    rw [List.getLast?_append, List.getLast?_append, List.getLast?_cons, List.getLast?_eq_some_getLast some_] at whole
    simpa using whole
  exact ⟨_, c, by rw [← last, List.dropLast_append_getLast some_], visible⟩

/-- Characters without a carriage return before a line feed are lines, where they end with one that shows. -/
theorem lined_of_uniform (ends : Ends own) (uniform : ¬ ['\r', '\n'] <:+: own) : Lined own := by
  have lined : ∀ own : List Char, ¬ ['\r', '\n'] <:+: own → own.getLast? ≠ some '\r' → Lined own := by
    intro own
    induction own with
    | nil => exact fun _ _ => ⟨[], [], rfl, by simp [Smooth]⟩
    | cons c rest step =>
      intro uniform last
      have uniformRest : ¬ ['\r', '\n'] <:+: rest := fun inside => uniform (inside.trans (List.suffix_cons c rest).isInfix)
      have lastRest : rest.getLast? ≠ some '\r' := by
        cases rest with
        | nil => simp
        | cons d others => rwa [List.getLast?_cons_cons] at last
      obtain ⟨first, more, rfl, smooth⟩ := step uniformRest lastRest
      obtain ⟨flat, others⟩ := List.forall_mem_cons.mp smooth
      by_cases feed : c = '\n'
      · subst feed
        refine ⟨[], first :: more, by rw [joinLines_cons]; rfl, List.forall_mem_cons.mpr ⟨by simp [Smooth], smooth⟩⟩
      · refine ⟨c :: first, more, rfl, List.forall_mem_cons.mpr ⟨⟨?_, ?_⟩, others⟩⟩
        · simp [Ne.symm feed, flat.1]
        · cases first with
          | cons d line => rw [List.getLast?_cons_cons]; exact flat.2
          | nil =>
            intro returned
            obtain rfl : c = '\r' := by simpa using returned
            cases more with
            | nil => exact last rfl
            | cons next rest => exact uniform ⟨[], joinLines next rest, by rw [joinLines_cons]; rfl⟩
  obtain ⟨before, c, rfl, visible⟩ := ends
  refine lined _ uniform ?_
  rw [List.getLast?_concat]
  rintro same
  obtain rfl := Option.some.inj same
  exact absurd return_blank (by simp [visible])

/-- A single line is lined. -/
theorem not_infix_of_flat (flat : '\n' ∉ own) : ¬ ['\r', '\n'] <:+: own :=
  fun inside => flat (inside.subset (by simp))

/-! ## Cutting into lines -/

/-- A line that is not finished goes on with the first line of what follows. -/
theorem linesOf_smooth_append (smooth : Smooth line) (some_ : line ≠ []) (after : List Char) :
    Text.linesOf (line ++ after) = (line ++ (Text.linesOf after).headD []) :: (Text.linesOf after).tail := by
  have single : ∀ (c : Char) (after : List Char), c ≠ '\n' → (∀ others, c = '\r' → after = '\n' :: others → False) →
      Text.linesOf (c :: after) = (c :: (Text.linesOf after).headD []) :: (Text.linesOf after).tail := by
    intro c after notFeed notReturn
    rw [Text.linesOf]
    · split <;> simp [*]
    · exact notFeed
    · exact notReturn
  induction line with
  | nil => exact absurd rfl some_
  | cons c rest step =>
    obtain ⟨flat, last⟩ := smooth
    rw [List.mem_cons, not_or] at flat
    cases rest with
    | nil => exact single c after (Ne.symm flat.1) fun _ same => absurd same (by simpa using last)
    | cons d others =>
      rw [List.getLast?_cons_cons] at last
      have notNext : d ≠ '\n' := fun same => flat.2 (by simp [same])
      have carried := single c (d :: others ++ after) (Ne.symm flat.1) fun _ _ same => notNext (List.cons.inj same).1
      rw [step ⟨flat.2, last⟩ (by simp)] at carried
      exact carried

/-- A line that is finished is a line. -/
theorem linesOf_smooth_feed (smooth : Smooth line) (after : List Char) :
    Text.linesOf (line ++ '\n' :: after) = line :: Text.linesOf after := by
  by_cases empty : line = []
  · rw [empty, List.nil_append, Text.linesOf]
  · rw [linesOf_smooth_append smooth empty, Text.linesOf]
    simp

/-- Lines are cut where they were put together. -/
theorem linesOf_joinLines_append (ends : Ends (joinLines first more)) (smooth : ∀ line ∈ first :: more, Smooth line)
    (after : List Char) :
    Text.linesOf (joinLines first more ++ after) =
      spread [] first more ((Text.linesOf after).headD []) ++ (Text.linesOf after).tail := by
  induction more generalizing first with
  | nil =>
    have some_ : first ≠ [] := by
      rintro rfl
      exact not_ends_nil (by simpa [joinLines] using ends)
    obtain ⟨flat, -⟩ := List.forall_mem_cons.mp smooth
    simpa [joinLines, spread] using linesOf_smooth_append flat some_ after
  | cons next rest step =>
    obtain ⟨flat, others⟩ := List.forall_mem_cons.mp smooth
    rw [joinLines_cons, List.append_assoc, List.cons_append, linesOf_smooth_feed flat, step ends.last_lines others]
    simp [spread]

theorem spread_nil (first : List Char) (more : List (List Char)) : spread [] first more [] = first :: more := by
  induction more generalizing first with
  | nil => simp [spread]
  | cons next rest step => simp [spread, step]

theorem linesOf_joinLines (ends : Ends (joinLines first more)) (smooth : ∀ line ∈ first :: more, Smooth line) :
    Text.linesOf (joinLines first more) = first :: more := by
  have lines := linesOf_joinLines_append ends smooth []
  simpa [Text.linesOf, spread_nil] using lines

/-- What stands in front of the first line goes to its front. -/
theorem exists_spread (left first : List Char) (more : List (List Char)) (right : List Char) :
    ∃ head tail, spread [] first more right = head :: tail ∧ spread left first more right = (left ++ head) :: tail := by
  cases more with
  | nil => exact ⟨first ++ right, [], by simp [spread], by simp [spread]⟩
  | cons next rest => exact ⟨first, spread [] next rest right, by simp [spread], by simp [spread]⟩

/-- What stands in front of a text gives lines of its own, and the front of the first line. -/
theorem linesOf_append (before : List Char) {whole head : List Char} {tail : List (List Char)} (starts : Starts whole)
    (lines : Text.linesOf whole = head :: tail) :
    ∃ earlier left, Text.linesOf (before ++ whole) = earlier ++ (left ++ head) :: tail := by
  obtain ⟨d, others, rfl, visible⟩ := starts
  have carry : ∀ (c : Char) (rest : List Char), c ≠ '\n' → (∀ others, c = '\r' → rest = '\n' :: others → False) →
      (∃ earlier left, Text.linesOf (rest ++ d :: others) = earlier ++ (left ++ head) :: tail) →
      ∃ earlier left, Text.linesOf (c :: (rest ++ d :: others)) = earlier ++ (left ++ head) :: tail := by
    intro c rest notFeed notReturn ⟨earlier, left, same⟩
    have apart : ∀ more, c = '\r' → rest ++ d :: others = '\n' :: more → False := by
      intro more returned equal
      cases rest with
      | nil => exact ne_of_visible visible feed_blank (List.cons.inj equal).1
      | cons e rest => exact notReturn rest returned (by rw [(List.cons.inj equal).1])
    cases earlier with
    | nil => exact ⟨[], c :: left, linesOf_cons notFeed apart same⟩
    | cons line earlier => exact ⟨(c :: line) :: earlier, left, linesOf_cons notFeed apart same⟩
  fun_induction Text.linesOf before with
  | case1 => exact ⟨[], [], lines⟩
  | case2 rest step =>
    obtain ⟨earlier, left, same⟩ := step
    exact ⟨[] :: earlier, left, by rw [List.cons_append, Text.linesOf, same]; rfl⟩
  | case3 rest step =>
    obtain ⟨earlier, left, same⟩ := step
    exact ⟨[] :: earlier, left, by rw [List.cons_append, List.cons_append, Text.linesOf, same]; rfl⟩
  | case4 c rest notFeed notReturn _ step => exact carry c rest notFeed notReturn step
  | case5 c rest notFeed notReturn _ _ _ step => exact carry c rest notFeed notReturn step

end Lines

/-! ## Lines that hold a text -/

/-- The text stands in the lines, its own first and last line perhaps not alone. A text that stands within one of the
lines may have line feeds itself. -/
def Spans (own : List Char) (lines : List String) : Prop :=
  ∃ before left first more right after, own = joinLines first more ∧
    (more = [] ∨ ∀ line ∈ first :: more, Smooth line) ∧
    lines = before ++ (spread left first more right).map String.ofList ++ after

section Spans

variable {own : List Char} {lines : List String}

/-- A text stands in a line that it is part of. -/
theorem spans_of_part {line : String} (inside : own <:+: line.toList) (member : line ∈ lines) : Spans own lines := by
  obtain ⟨left, right, same⟩ := inside
  obtain ⟨before, after, rfl⟩ := List.append_of_mem member
  refine ⟨before, left, own, [], right, after, by simp [joinLines], .inl rfl, ?_⟩
  simp [spread, same]

/-- **What is part of a text stands in its lines.** -/
theorem spans_lines (solid : Solid own) (lined : Lined own) {text : String} (inside : own <:+: text.toList) :
    Spans own (Text.lines text) := by
  obtain ⟨left, right, same⟩ := inside
  obtain ⟨first, more, rfl, smooth⟩ := lined
  have whole := linesOf_joinLines_append solid.2 smooth right
  obtain ⟨head, tail, plain, -⟩ := exists_spread [] first more ((Text.linesOf right).headD [])
  rw [plain, List.cons_append] at whole
  obtain ⟨earlier, front, cut⟩ := linesOf_append left (solid.1.append right) whole
  obtain ⟨head', tail', plain', spread⟩ := exists_spread front first more ((Text.linesOf right).headD [])
  obtain ⟨rfl, rfl⟩ := List.cons.inj (plain.symm.trans plain')
  refine ⟨earlier.map String.ofList, front, first, more, (Text.linesOf right).headD [],
    (Text.linesOf right).tail.map String.ofList, rfl, .inr smooth, ?_⟩
  rw [Text.lines, ← same, List.append_assoc, cut, spread]
  simp

theorem Spans.append_left (spans : Spans own lines) (others : List String) : Spans own (others ++ lines) := by
  obtain ⟨before, left, first, more, right, after, same, flat, rfl⟩ := spans
  exact ⟨others ++ before, left, first, more, right, after, same, flat, by simp⟩

theorem Spans.append_right (spans : Spans own lines) (others : List String) : Spans own (lines ++ others) := by
  obtain ⟨before, left, first, more, right, after, same, flat, rfl⟩ := spans
  exact ⟨before, left, first, more, right, after ++ others, same, flat, by simp⟩

theorem Spans.cons (spans : Spans own lines) (line : String) : Spans own (line :: lines) :=
  spans.append_left [line]

/-- Lines one below the other are a part of more lines one below the other. -/
theorem unlines_part (before lines after : List String) (some_ : lines ≠ []) :
    (Text.unlines lines).toList <:+: (Text.unlines (before ++ lines ++ after)).toList := by
  obtain ⟨line, rest, rfl⟩ := List.exists_cons_of_ne_nil some_
  have front : ∀ (line : String) (rest after : List String),
      (Text.unlines (line :: rest)).toList <+: (Text.unlines (line :: rest ++ after)).toList := by
    intro line rest after
    rw [Text.unlines, Text.unlines, String.toList_intercalate, String.toList_intercalate, List.cons_append, List.map_cons,
      List.map_cons, intercalate_cons, intercalate_cons, List.map_append, List.flatMap_append, ← List.append_assoc]
    exact List.prefix_append _ _
  refine (front line rest after).isInfix.trans (List.IsSuffix.isInfix ?_)
  cases before with
  | nil => exact List.suffix_refl _
  | cons first before =>
    rw [Text.unlines, Text.unlines, String.toList_intercalate, String.toList_intercalate, List.cons_append, List.cons_append,
      List.cons_append, List.map_cons, List.map_cons, intercalate_cons, intercalate_cons]
    refine ⟨first.toList ++ ((before.map String.toList).flatMap ("\n".toList ++ ·) ++ "\n".toList), ?_⟩
    simp

/-- Lines spread over others are a part of them, with line feeds between them. -/
theorem joinLines_infix_spread (left first : List Char) (more : List (List Char)) (right : List Char) :
    joinLines first more <:+: (Text.unlines ((spread left first more right).map String.ofList)).toList := by
  have joined : ∀ (left first : List Char) (more : List (List Char)),
      (Text.unlines ((spread left first more right).map String.ofList)).toList =
        left ++ joinLines first more ++ right := by
    intro left first more
    rw [Text.unlines, String.toList_intercalate, List.map_map]
    induction more generalizing left first with
    | nil => simp [spread, joinLines]
    | cons next rest step =>
      obtain ⟨head, tail, plain, -⟩ := exists_spread [] next rest right
      have later := step [] next
      rw [spread, joinLines_cons]
      rw [plain] at later ⊢
      rw [List.map_cons, List.map_cons, List.intercalate_cons_cons, ← List.map_cons, later]
      simp
  rw [joined]
  exact ⟨left, right, rfl⟩

/-- A text that stands in lines is a part of them. -/
theorem Spans.shows (spans : Spans own lines) : own <:+: (Text.unlines lines).toList := by
  obtain ⟨before, left, first, more, right, after, rfl, -, rfl⟩ := spans
  refine (joinLines_infix_spread left first more right).trans (unlines_part before _ after ?_)
  obtain ⟨head, tail, -, same⟩ := exists_spread left first more right
  simp [same]

end Spans

/-! ## Moving lines in -/

section Moving

variable {own first next line : List Char} {more rest : List (List Char)} {lines : List String}

theorem indentLine_ofList (line : List Char) : Text.indentLine (String.ofList line) = String.ofList (deepLine line) := by
  rw [← toList_indentLine, String.ofList_toList]

theorem deepLine_of_visible {line : List Char} {c : Char} (member : c ∈ line) (visible : Text.isBlank c = false) :
    deepLine line = levelChars ++ line := by
  refine if_neg fun blank => ?_
  rw [List.all_eq_true] at blank
  exact absurd (blank c member) (by simp [visible])

theorem Smooth.deepLine (smooth : Smooth line) : Smooth (deepLine line) := by
  unfold Layout.deepLine
  split
  · simp [Smooth]
  · rename_i shown
    refine ⟨?_, ?_⟩
    · simp [levelChars, smooth.1]
    · have some_ : line ≠ [] := by
        rintro rfl
        exact shown rfl
      rw [List.getLast?_append, List.getLast?_eq_some_getLast some_]
      simpa [List.getLast?_eq_some_getLast some_] using smooth.2

/-- The lines after the first one level in. -/
theorem map_deepLine_spread (ends : Ends (joinLines next rest)) (right : List Char) :
    (spread [] next rest right).map deepLine = spread [] (deepLine next) (rest.map deepLine) right := by
  induction rest generalizing next with
  | nil =>
    obtain ⟨before, c, same, visible⟩ := ends
    obtain rfl : next = before ++ [c] := by simpa [joinLines] using same
    simp only [spread, List.map_cons, List.map_nil, List.nil_append]
    rw [deepLine_of_visible (c := c) (by simp) visible, deepLine_of_visible (c := c) (by simp) visible,
      List.append_assoc, List.append_assoc, List.append_assoc]
  | cons line rest step => simp [spread, step ends.last_lines]

/-- Moving a text in is moving its further lines in. -/
theorem deepen_joinLines (ends : Ends (joinLines first more)) (smooth : ∀ line ∈ first :: more, Smooth line) :
    deepen (joinLines first more) = joinLines first (more.map deepLine) := by
  obtain ⟨first', more', lines, same⟩ := @linesOf_deepenFrom none _ ends rfl
  obtain ⟨rfl, rfl⟩ := List.cons.inj ((linesOf_joinLines ends smooth).symm.trans lines)
  rw [deepen, same, firstLine, joinLines, List.flatMap_map]

theorem Lined.deepen (lined : Lined own) (ends : Ends own) : Lined (deepen own) := by
  obtain ⟨first, more, rfl, smooth⟩ := lined
  refine ⟨first, more.map deepLine, deepen_joinLines ends smooth, ?_⟩
  obtain ⟨flat, others⟩ := List.forall_mem_cons.mp smooth
  refine List.forall_mem_cons.mpr ⟨flat, fun line member => ?_⟩
  obtain ⟨line, inside, rfl⟩ := List.mem_map.mp member
  exact (others line inside).deepLine

theorem Lined.iterate (lined : Lined own) (solid : Solid own) (levels : Nat) : Lined (Layout.deepen^[levels] own) := by
  induction levels with
  | zero => exact lined
  | succ levels step =>
    rw [Function.iterate_succ_apply']
    exact step.deepen (solid.iterate levels).2

/-- The lines that a text is spread over, moved in but for the first one, hold it with its further lines moved in. -/
theorem exists_moved (solid : Solid (joinLines first more)) (flat : more = [] ∨ ∀ line ∈ first :: more, Smooth line)
    (left right : List Char) :
    ∃ levels head tail, spread left first more right = head :: tail ∧ deepLine head = levelChars ++ head ∧
      ∀ front, Spans (deepen^[levels] (joinLines first more))
        (String.ofList (front ++ head) :: (tail.map String.ofList).map Text.indentLine) := by
  obtain ⟨c, others, start, visible⟩ := solid.1
  cases more with
  | nil =>
    have same : joinLines first [] = first := by simp [joinLines]
    rw [same] at start ⊢
    refine ⟨0, left ++ first ++ right, [], rfl, deepLine_of_visible (c := c) (by simp [start]) visible, fun front => ?_⟩
    have inside : first <:+: (String.ofList (front ++ (left ++ first ++ right))).toList :=
      ⟨front ++ left, right, by simp⟩
    exact spans_of_part inside List.mem_cons_self
  | cons next rest =>
    have smooth := flat.resolve_left (by simp)
    obtain ⟨firstFlat, others'⟩ := List.forall_mem_cons.mp smooth
    have inside : c ∈ first := by
      cases first with
      | nil =>
        rw [joinLines_cons, List.nil_append] at start
        exact absurd (List.cons.inj start).1.symm (ne_of_visible visible feed_blank)
      | cons d line =>
        rw [joinLines_cons, List.cons_append] at start
        simp [(List.cons.inj start).1]
    refine ⟨1, left ++ first, spread [] next rest right, rfl,
      deepLine_of_visible (List.mem_append_right _ inside) visible, fun front => ?_⟩
    refine ⟨[], front ++ left, first, (next :: rest).map deepLine, right, [], deepen_joinLines solid.2 smooth, .inr ?_, ?_⟩
    · refine List.forall_mem_cons.mpr ⟨firstFlat, fun line member => ?_⟩
      obtain ⟨line, inside, rfl⟩ := List.mem_map.mp member
      exact (others' line inside).deepLine
    · have moved : ((spread [] next rest right).map String.ofList).map Text.indentLine =
          ((spread [] next rest right).map deepLine).map String.ofList := by
        rw [List.map_map, List.map_map]
        exact List.map_congr_left fun line _ => indentLine_ofList line
      rw [moved, map_deepLine_spread solid.2.last_lines]
      simp [spread]

/-- **Lines that are moved in hold what they held**, its further lines perhaps one level farther in. -/
theorem Spans.indent (spans : Spans own lines) (solid : Solid own) :
    ∃ levels, Spans (deepen^[levels] own) (lines.map Text.indentLine) := by
  obtain ⟨before, left, first, more, right, after, rfl, flat, rfl⟩ := spans
  obtain ⟨levels, head, tail, same, deep, moved⟩ := exists_moved solid flat left right
  refine ⟨levels, ?_⟩
  rw [same, List.map_append, List.map_append, List.map_cons, List.map_cons, indentLine_ofList, deep]
  exact ((moved levelChars).append_left _).append_right _

/-- The same where the first line stays. -/
theorem Spans.indentTail {line : String} (spans : Spans own (line :: lines)) (solid : Solid own) :
    ∃ levels, Spans (deepen^[levels] own) (line :: lines.map Text.indentLine) := by
  obtain ⟨before, left, first, more, right, after, rfl, flat, whole⟩ := spans
  cases before with
  | nil =>
    obtain ⟨levels, head, tail, same, -, moved⟩ := exists_moved solid flat left right
    rw [same, List.nil_append, List.map_cons, List.cons_append] at whole
    obtain ⟨rfl, rfl⟩ := List.cons.inj whole
    refine ⟨levels, ?_⟩
    rw [List.map_append]
    exact (moved []).append_right _
  | cons start before =>
    rw [List.cons_append, List.cons_append] at whole
    obtain ⟨rfl, rfl⟩ := List.cons.inj whole
    have later : Spans (joinLines first more) (before ++ (spread left first more right).map String.ofList ++ after) :=
      ⟨before, left, first, more, right, after, rfl, flat, rfl⟩
    obtain ⟨levels, moved⟩ := later.indent solid
    exact ⟨levels, moved.cons line⟩

end Moving

/-- `Text.indentTail` moves the further lines in. -/
theorem toList_indentTail {text : String} (ends : Ends text.toList) :
    (Text.indentTail text).toList = deepen text.toList := by
  obtain ⟨first, more, lines, same⟩ := @linesOf_deepenFrom none text.toList ends rfl
  have moved : Text.indentTail text =
      Text.unlines (String.ofList first :: (more.map String.ofList).map Text.indentLine) := by
    rw [Text.indentTail, Text.lines, lines, List.map_cons]
  rw [moved, Text.unlines, String.toList_intercalate, deepen, same]
  simp only [List.map_cons, List.map_map, Function.comp_def, toList_indentLine, String.toList_ofList]
  rw [intercalate_cons, List.flatMap_map, firstLine]
  rfl

theorem toList_iterate_indentTail {text : String} (solid : Solid text.toList) (levels : Nat) :
    (Text.indentTail^[levels] text).toList = deepen^[levels] text.toList := by
  induction levels with
  | zero => rfl
  | succ levels step =>
    rw [Function.iterate_succ_apply', Function.iterate_succ_apply', toList_indentTail, step]
    rw [step]
    exact (solid.iterate levels).2

end DerwLang.Layout
