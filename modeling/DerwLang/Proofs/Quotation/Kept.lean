/-
**Quoted texts in generated programs.**

Every text between quotes or backticks in the source stands in the generated program, wherever it stood: in the branches of
conditionals and cases, in lambdas, lists, records, arguments, local definitions, or the patterns of a case.

* `quotation_kept`: a quotation on a single line is kept with every character; of one on several lines, each line after
  the first may be moved in by some levels;
* `second_line_moves`: a quotation on two lines in a function is not kept.

The texts that a term, a statement or a block is made of are shown by its own (`Shown`, `ShownIn`), and so on upwards
(`shows_lower`).
-/

import DerwLang.Ecma.Module
import DerwLang.Proofs.ListPattern.Correct
import DerwLang.Proofs.Quotation.Lines
import DerwLang.Proofs.Quotation.Source
import DerwLang.Proofs.Types.Script

set_option linter.unusedSectionVars false

namespace DerwLang.Ecma

open Layout

/-! ## Characters that are shown -/

/-- Characters that layout moves as a whole: they show something at both ends and have no carriage return at the end of a
line. -/
structure Movable (own : List Char) : Prop where
  solid : Solid own
  lined : Lined own

/-- The text shows the characters, with further lines some levels in. -/
def Shown (own : List Char) (text : String) : Prop :=
  ∃ levels, deepen^[levels] own <:+: text.toList

/-- The lines show the characters, once they are moved in. Lines that hold only blanks are empty from then on. -/
def ShownIn (own : List Char) (lines : List String) : Prop :=
  ∃ levels, Spans (deepen^[levels] own) (lines.map Text.indentLine)

section Texts

variable {own : List Char} {text : String} {lines : List String}

theorem Movable.iterate (movable : Movable own) (levels : Nat) : Movable (deepen^[levels] own) :=
  ⟨movable.solid.iterate levels, movable.lined.iterate movable.solid levels⟩

theorem Shown.within {whole : String} (shown : Shown own text) (inside : text.toList <:+: whole.toList) :
    Shown own whole := by
  obtain ⟨levels, part⟩ := shown
  exact ⟨levels, part.trans inside⟩

theorem Shown.after (shown : Shown own text) (before : String) : Shown own (before ++ text) := by
  apply shown.within
  rw [String.toList_append]
  exact (List.suffix_append _ _).isInfix

theorem Shown.before (shown : Shown own text) (after : String) : Shown own (text ++ after) := by
  apply shown.within
  rw [String.toList_append]
  exact (List.prefix_append _ _).isInfix

theorem Shown.among {texts : List String} (shown : Shown own text) (member : text ∈ texts) (between : String) :
    Shown own (String.intercalate between texts) := by
  apply shown.within
  obtain ⟨earlier, later, rfl⟩ := List.append_of_mem member
  rw [String.toList_intercalate, List.map_append, List.map_cons]
  cases earlier with
  | nil =>
    rw [List.map_nil, List.nil_append, intercalate_cons]
    exact (List.prefix_append _ _).isInfix
  | cons first earlier =>
    rw [List.map_cons, List.cons_append, intercalate_cons, List.flatMap_append, List.flatMap_cons]
    exact ⟨first.toList ++ ((earlier.map String.toList).flatMap (between.toList ++ ·) ++ between.toList),
      (later.map String.toList).flatMap (between.toList ++ ·), by simp⟩

theorem Shown.parenthesised (shown : Shown own text) : Shown own (Text.parenthesised text) :=
  (shown.after "(").before ")"

theorem Shown.commaSeparated {texts : List String} (shown : Shown own text) (member : text ∈ texts) :
    Shown own (Text.commaSeparated texts) :=
  shown.among member ", "

theorem Shown.operandText (shown : Shown own text) (parent : Nat) (onRight : Bool) (operand : Term) :
    Shown own (operandText parent onRight operand text) := by
  unfold Ecma.operandText
  split
  · exact shown.parenthesised
  · exact shown

theorem Shown.branchText (shown : Shown own text) (branch : Term) : Shown own (branchText branch text) := by
  unfold Ecma.branchText
  split
  · split
    · exact shown
    · exact (shown.after "( ").before " )"
  · exact shown

theorem Shown.entryText (shown : Shown own text) (name : String) : Shown own (entryText name text) := by
  unfold Ecma.entryText
  split
  · rename_i same
    rwa [← eq_of_beq same]
  · exact shown.after _

/-- A text whose further lines are moved in shows what it showed. -/
theorem Shown.indentTail (movable : Movable own) (shown : Shown own text) : Shown own (Text.indentTail text) := by
  obtain ⟨levels, inside⟩ := shown
  have further := movable.iterate levels
  have spans : Spans (deepen^[levels] own) (Text.lines text) := spans_lines further.solid further.lined inside
  unfold Text.indentTail
  split
  · rename_i none
    rw [none] at spans
    obtain ⟨before, left, first, more, right, after, -, -, nothing⟩ := spans
    obtain ⟨head, tail, -, some_⟩ := exists_spread left first more right
    simp [some_] at nothing
  · rename_i first rest lines
    rw [lines] at spans
    obtain ⟨farther, moved⟩ := spans.indentTail further.solid
    refine ⟨farther + levels, ?_⟩
    rw [Function.iterate_add_apply]
    exact moved.shows

/-- A record shows what its entries show. -/
theorem Shown.recordText (movable : Movable own) {entries : List String} (shown : Shown own text)
    (member : text ∈ entries) : Shown own (recordText entries) := by
  unfold Ecma.recordText
  split
  · cases member
  · obtain rfl := List.mem_singleton.mp member
    exact (shown.after "\x7b ").before " \x7d"
  · refine Shown.before (Shown.after (Shown.among ?_ (List.mem_map_of_mem member) ",\n") _) _
    exact (shown.indentTail movable).after Text.indentation

/-! ## Lines that show characters -/

theorem ShownIn.after (shown : ShownIn own lines) (before : List String) : ShownIn own (before ++ lines) := by
  obtain ⟨levels, spans⟩ := shown
  refine ⟨levels, ?_⟩
  rw [List.map_append]
  exact spans.append_left _

theorem ShownIn.before (shown : ShownIn own lines) (after : List String) : ShownIn own (lines ++ after) := by
  obtain ⟨levels, spans⟩ := shown
  refine ⟨levels, ?_⟩
  rw [List.map_append]
  exact spans.append_right _

theorem ShownIn.cons (shown : ShownIn own lines) (line : String) : ShownIn own (line :: lines) :=
  shown.after [line]

/-- Lines that are moved in show what they showed. -/
theorem ShownIn.moved (movable : Movable own) (shown : ShownIn own lines) :
    ShownIn own (lines.map Text.indentLine) := by
  obtain ⟨levels, spans⟩ := shown
  obtain ⟨farther, moved⟩ := spans.indent (movable.solid.iterate levels)
  refine ⟨farther + levels, ?_⟩
  rw [Function.iterate_add_apply]
  exact moved

/-- Settling a line makes no difference once it is moved in. -/
theorem indentLine_settleLine (line : String) : Text.indentLine (Text.settleLine line) = Text.indentLine line := by
  unfold Text.settleLine
  split
  · rename_i blank
    rw [Text.indentLine, Text.indentLine, if_pos blank]
    rfl
  · rfl

/-- The lines of a statement show what its text shows. -/
theorem Shown.statementLines (movable : Movable own) (shown : Shown own text) : ShownIn own (statementLines text) := by
  obtain ⟨levels, inside⟩ := shown
  have further := movable.iterate levels
  obtain ⟨farther, moved⟩ := (spans_lines further.solid further.lined inside).indent further.solid
  refine ⟨farther + levels, ?_⟩
  rw [Function.iterate_add_apply, Ecma.statementLines, List.map_map]
  rwa [show Text.indentLine ∘ Text.settleLine = Text.indentLine from funext indentLine_settleLine]

/-- A line that is not taken apart shows what its text shows. -/
theorem Shown.line (movable : Movable own) (shown : Shown own text) : ShownIn own [Text.settleLine text] := by
  obtain ⟨levels, inside⟩ := shown
  obtain ⟨c, rest, start, visible⟩ := (movable.iterate levels).solid.1
  have member : c ∈ text.toList := inside.subset (by simp [start])
  have moved : deepen^[levels] own <:+: (Text.indentLine text).toList := by
    rw [← String.ofList_toList (s := text), toList_indentLine, deepLine_of_visible member visible]
    exact inside.trans (List.suffix_append _ _).isInfix
  exact ⟨levels, spans_of_part moved (by simp [indentLine_settleLine])⟩

theorem Shown.blockLines (movable : Movable own) (shown : Shown own text) (body : List String) :
    ShownIn own (blockLines text body) :=
  (((shown.before " \x7b").line movable).before (body.map Text.indentLine)).before ["\x7d"]

theorem ShownIn.blockLines (movable : Movable own) (shown : ShownIn own lines) (head : String) :
    ShownIn own (blockLines head lines) :=
  ((shown.moved movable).cons _).before ["\x7d"]

theorem Shown.chooseLines (movable : Movable own) (shown : Shown own text) (whenTrue whenFalse : List String) :
    ShownIn own (chooseLines text whenTrue whenFalse) :=
  (((((shown.parenthesised.after "if ").before " \x7b").line movable).before _).before _).before _ |>.before _

/-- A choice shows what one of its bodies shows. -/
theorem ShownIn.chooseLines (movable : Movable own) {whenTrue whenFalse : List String}
    (shown : ShownIn own whenTrue ∨ ShownIn own whenFalse) (condition : String) :
    ShownIn own (chooseLines condition whenTrue whenFalse) := by
  apply ShownIn.before
  rcases shown with inTrue | inFalse
  · exact (((inTrue.moved movable).cons _).before _).before _
  · exact (inFalse.moved movable).after _

/-- A function shows what the lines of its body show. -/
theorem ShownIn.functionText (shown : ShownIn own lines) (head : String) : Shown own (functionText head lines) := by
  obtain ⟨levels, spans⟩ := shown
  exact ⟨levels, ((spans.cons _).append_right ["\x7d"]).shows⟩

theorem ShownIn.immediateText (shown : ShownIn own lines) (dialect : Dialect) :
    Shown own (immediateText dialect lines) :=
  (shown.functionText _).before ")()"

end Texts

/-! ## Statements -/

/-- The body shows the characters. -/
def Keeps (dialect : Dialect) (own : List Char) (body : List Statement) : Prop :=
  ShownIn own (Statement.linesOfEach dialect body)

section Statements

variable {dialect : Dialect} {own : List Char} {body : List Statement}

theorem linesOfEach_append (dialect : Dialect) (first second : List Statement) :
    Statement.linesOfEach dialect (first ++ second) =
      Statement.linesOfEach dialect first ++ Statement.linesOfEach dialect second := by
  induction first with
  | nil => rfl
  | cons statement rest step =>
    rw [List.cons_append, Statement.linesOfEach, Statement.linesOfEach, step, List.append_assoc]

theorem Keeps.after (keeps : Keeps dialect own body) (before : List Statement) : Keeps dialect own (before ++ body) := by
  unfold Keeps
  rw [linesOfEach_append]
  exact ShownIn.after keeps _

theorem Keeps.before (keeps : Keeps dialect own body) (after : List Statement) : Keeps dialect own (body ++ after) := by
  unfold Keeps
  rw [linesOfEach_append]
  exact ShownIn.before keeps _

theorem Keeps.cons (keeps : Keeps dialect own body) (statement : Statement) : Keeps dialect own (statement :: body) :=
  keeps.after [statement]

/-- A body shows what one of its statements shows. -/
theorem keeps_cons {statement : Statement} (shown : ShownIn own (statement.lines dialect)) (rest : List Statement) :
    Keeps dialect own (statement :: rest) :=
  shown.before _

theorem Keeps.guarded (movable : Movable own) (keeps : Keeps dialect own body) (condition : Condition) :
    Keeps dialect own [.guarded condition body] := by
  refine keeps_cons ?_ []
  rw [Statement.lines]
  exact ShownIn.blockLines movable keeps _

theorem Shown.guarded (movable : Movable own) {condition : Condition} (shown : Shown own condition.text)
    (body : List Statement) : Keeps dialect own [.guarded condition body] := by
  refine keeps_cons ?_ []
  rw [Statement.lines]
  exact (shown.parenthesised.after "if ").blockLines movable _

/-- A switch shows what one of its cases shows. -/
theorem ShownIn.cases {choice : SwitchCase} {cases : List SwitchCase} (member : choice ∈ cases)
    (shown : ShownIn own (Ecma.blockLines choice.label.text (Statement.linesOfEach dialect choice.body))) :
    ShownIn own (SwitchCase.linesOfEach dialect cases) := by
  induction cases with
  | nil => cases member
  | cons first rest step =>
    obtain ⟨label, block⟩ := first
    rw [SwitchCase.linesOfEach]
    rcases List.mem_cons.mp member with rfl | later
    · exact shown.before _
    · exact (step later).after _

end Statements

/-! ## List patterns -/

section Patterns

variable {dialect : Dialect} {quotation : Quotation} {body : List Statement} {part : ListPart} {parts : List ListPart}

/-- A part that is a quotation is tested, and the test shows it. -/
theorem shown_partTest (quoted : part.quotation? = some quotation) :
    ∃ anchor, anchor? part = some anchor ∧ ∀ subject, Shown quotation.text.toList (ElementTest.text ⟨subject, anchor⟩) := by
  cases part with
  | string text =>
    obtain rfl := Option.some.inj quoted
    refine ⟨.quoted text, rfl, fun subject => ?_⟩
    exact Shown.after ⟨0, List.infix_refl _⟩ _
  | formatString text =>
    obtain rfl := Option.some.inj quoted
    refine ⟨.template text, rfl, fun subject => ?_⟩
    exact Shown.after ⟨0, List.infix_refl _⟩ _
  | emptyList | name | tag => cases quoted

/-- Each part that is tested has its test among those of the elements. -/
theorem mem_elementTests (member : part ∈ parts) {anchor : Anchor} (tested : anchor? part = some anchor) (index : Nat) :
    ∃ subject, ⟨subject, anchor⟩ ∈ elementTests index parts := by
  induction parts generalizing index with
  | nil => cases member
  | cons first rest step =>
    rw [elementTests]
    rcases List.mem_cons.mp member with rfl | later
    · refine ⟨elementName index part, List.mem_append_left _ ?_⟩
      simp [partTest?, tested]
    · obtain ⟨subject, among⟩ := step later (index + 1)
      exact ⟨subject, List.mem_append_right _ among⟩

/-- The last part that is split off is no quotation. -/
theorem mem_splitLast (member : part ∈ parts) (quoted : part.quotation? = some quotation) :
    part ∈ (splitLast parts).1 := by
  have inFront : ∀ last, parts.getLast? = some last → last.quotation? = none → part ∈ parts.dropLast := by
    intro last final plain
    obtain ⟨before, rfl⟩ := List.getLast?_eq_some_iff.mp final
    rw [List.dropLast_concat]
    rcases List.mem_append.mp member with inside | atEnd
    · exact inside
    · obtain rfl := List.mem_singleton.mp atEnd
      rw [quoted] at plain
      cases plain
  unfold splitLast
  split
  · exact inFront _ ‹_› rfl
  · exact inFront _ ‹_› rfl
  · exact member

/-- A condition on elements shows the quotations that it compares them with. -/
theorem shown_elements (quoted : part.quotation? = some quotation) {tests : List ElementTest}
    (among : ∀ anchor, anchor? part = some anchor → ∃ subject, ⟨subject, anchor⟩ ∈ tests) :
    Shown quotation.text.toList (Condition.elements tests).text := by
  obtain ⟨anchor, tested, shown⟩ := shown_partTest quoted
  obtain ⟨subject, member⟩ := among anchor tested
  exact (shown subject).among (List.mem_map_of_mem member) " && "

variable (dialect) (movable : Movable quotation.text.toList) (list : String)

include movable

theorem keeps_positional
    (found : (∃ part ∈ parts, part.quotation? = some quotation) ∨ Keeps dialect quotation.text.toList body) :
    Keeps dialect quotation.text.toList (positional list parts body) := by
  rcases found with ⟨part, member, quoted⟩ | keeps
  · have among := fun (anchor : Anchor) (tested : anchor? part = some anchor) =>
      mem_elementTests (mem_splitLast member quoted) tested 0
    have shown := shown_elements quoted among
    unfold positional
    dsimp only
    split
    · rename_i none
      obtain ⟨anchor, tested, -⟩ := shown_partTest quoted
      obtain ⟨subject, absurd_⟩ := among anchor tested
      rw [none] at absurd_
      cases absurd_
    · exact (shown.guarded movable _).after _
  · unfold positional
    dsimp only
    split
    · exact (keeps.after _).after _
    · exact ((keeps.after _).guarded movable _).after _

/-- A body shows what it shows, with a condition in front or without one. -/
theorem keeps_ite (bare : Bool) (keeps : Keeps dialect quotation.text.toList body) (condition : Condition) :
    Keeps dialect quotation.text.toList (if bare then body else [.guarded condition body]) := by
  split
  · exact keeps
  · exact keeps.guarded movable condition

theorem keeps_peel (index : Nat) (isLast : Bool)
    (found : part.quotation? = some quotation ∨ Keeps dialect quotation.text.toList body) :
    Keeps dialect quotation.text.toList (peel index list part isLast body) := by
  refine keeps_ite dialect movable (index == 0) ?_ _
  rcases found with quoted | keeps
  · obtain ⟨anchor, tested, -⟩ := shown_partTest quoted
    have test : partTest? part (elementName index part) = some ⟨elementName index part, anchor⟩ := by
      simp [partTest?, tested]
    rw [test]
    refine ((shown_elements quoted fun other same => ?_).guarded movable _).cons _
    rw [tested] at same
    obtain rfl := Option.some.inj same
    exact ⟨_, List.mem_singleton_self _⟩
  · split
    · exact ((keeps.after _).guarded movable _).cons _
    · exact keeps.cons _

theorem keeps_gapSearch (index : Nat) (gap : String) {anchor : Anchor} (tested : anchor? part = some anchor)
    (isLast : Bool) (found : part.quotation? = some quotation ∨ Keeps dialect quotation.text.toList body) :
    Keeps dialect quotation.text.toList (gapSearch index gap list part anchor isLast body) := by
  unfold gapSearch
  dsimp only
  rcases found with quoted | keeps
  · obtain ⟨other, same, shown⟩ := shown_partTest quoted
    obtain rfl := Option.some.inj (tested.symm.trans same)
    refine keeps_cons ?_ _
    rw [Statement.lines, searchLines]
    refine ShownIn.after (ShownIn.blockLines movable ?_ _) _
    exact ((shown _).parenthesised.after "if ").blockLines movable _
  · exact ((keeps.after _).guarded movable _).cons _

/-- What is peeled off part by part shows the quotations up to the first `[]`, and so does the body behind them. -/
theorem keeps_sequential (index : Nat)
    (found : (∃ part ∈ parts.takeWhile (· != .emptyList), part.quotation? = some quotation) ∨
      Keeps dialect quotation.text.toList body) :
    Keeps dialect quotation.text.toList (sequential index list body parts) := by
  have shift : ∀ {part : ListPart} {rest : List ListPart}, part.quotation? = none →
      (∃ other ∈ (part :: rest).takeWhile (· != .emptyList), other.quotation? = some quotation) →
      ∃ other ∈ rest.takeWhile (· != .emptyList), other.quotation? = some quotation := by
    rintro part rest plain ⟨other, member, quoted⟩
    rw [List.takeWhile_cons] at member
    split at member
    · rcases List.mem_cons.mp member with rfl | later
      · rw [quoted] at plain
        cases plain
      · exact ⟨other, later, quoted⟩
    · cases member
  have next : ∀ {part : ListPart} {rest : List ListPart},
      (∃ other ∈ (part :: rest).takeWhile (· != .emptyList), other.quotation? = some quotation) →
      part.quotation? = some quotation ∨
        ∃ other ∈ rest.takeWhile (· != .emptyList), other.quotation? = some quotation := by
    rintro part rest ⟨other, member, quoted⟩
    rw [List.takeWhile_cons] at member
    split at member
    · rcases List.mem_cons.mp member with rfl | later
      · exact .inl quoted
      · exact .inr ⟨other, later, quoted⟩
    · cases member
  induction index, list, parts using sequential.induct with
  | case1 =>
    rw [sequential]
    simpa using found
  | case2 =>
    rw [sequential]
    refine (found.resolve_left ?_).guarded movable _
    simp
  | case3 =>
    rw [sequential]
    refine (found.resolve_left fun inside => ?_).cons _
    obtain ⟨other, member, -⟩ := shift rfl inside
    cases member
  | case4 list name part rest index anchor tested step =>
    rw [sequential.eq_4 _ _ _ _ _ _ _ tested]
    refine keeps_gapSearch dialect movable list _ name tested _ ?_
    rcases found with inside | keeps
    · exact (next (shift rfl inside)).imp_right fun later => step (.inl later)
    · exact .inr (step (.inr keeps))
  | case5 list name part rest index notSearched step =>
    rw [sequential.eq_5 _ _ _ _ _ _ notSearched]
    exact keeps_peel dialect movable list index false (.inr (step (found.imp_left (shift rfl))))
  | case6 index list part rest notEnd notLast notName step =>
    rw [sequential.eq_6 _ _ _ _ _ notEnd notLast notName]
    refine keeps_peel dialect movable list index _ ?_
    rcases found with inside | keeps
    · exact (next inside).imp_right fun later => step (.inl later)
    · exact .inr (step (.inr keeps))

/-- **The statements of a list pattern show its quotations**, and those of the body. -/
theorem keeps_listPattern
    (found : quotation ∈ (Pattern.list parts).quotations ∨ Keeps dialect quotation.text.toList body) :
    Keeps dialect quotation.text.toList (listPattern list parts body) := by
  have parted : (∃ part ∈ parts.takeWhile (· != .emptyList), part.quotation? = some quotation) ∨
      Keeps dialect quotation.text.toList body :=
    found.imp_left List.mem_filterMap.mp
  refine Keeps.guarded movable ?_ _
  split
  · refine keeps_positional dialect movable list (parted.imp_left ?_)
    rintro ⟨part, member, quoted⟩
    exact ⟨part, (List.takeWhile_sublist _).subset member, quoted⟩
  · exact keeps_sequential dialect movable list 0 parted

/-- The statements of a case show the quotations of its patterns and its bodies. -/
theorem keeps_caseStatements (name : String) (value : Term) {branches : List (Pattern × List Statement)}
    (found : Shown quotation.text.toList (value.text dialect) ∨
      ∃ branch ∈ branches, quotation ∈ branch.1.quotations ∨ Keeps dialect quotation.text.toList branch.2) :
    Keeps dialect quotation.text.toList (caseStatements name value branches) := by
  unfold caseStatements
  rcases found with shown | ⟨⟨pattern, body⟩, member, inside⟩
  · refine keeps_cons ?_ _
    rw [Statement.lines]
    exact ((shown.after _).before _).statementLines movable
  · refine (keeps_cons ?_ []).cons _
    rw [Statement.lines]
    refine ShownIn.blockLines movable (ShownIn.cases (List.mem_map_of_mem member) ?_) _
    cases pattern with
    | tag pattern => exact ShownIn.blockLines movable ((inside.resolve_left (by simp [Pattern.quotations])).after _) _
    | emptyList =>
      exact ShownIn.blockLines movable ((inside.resolve_left (by simp [Pattern.quotations])).guarded movable _) _
    | otherwise => exact ShownIn.blockLines movable (inside.resolve_left (by simp [Pattern.quotations])) _
    | list parts => exact ShownIn.blockLines movable (keeps_listPattern dialect movable name inside) _
    | string text =>
      rcases inside with same | keeps
      · obtain rfl := List.mem_singleton.mp same
        refine Shown.blockLines movable (Shown.before (Shown.after ⟨0, List.infix_refl _⟩ "case ") ":") _
      · exact ShownIn.blockLines movable keeps _
    | formatString text =>
      rcases inside with same | keeps
      · obtain rfl := List.mem_singleton.mp same
        refine Shown.blockLines movable (Shown.before (Shown.after ⟨0, List.infix_refl _⟩ "case ") ":") _
      · exact ShownIn.blockLines movable keeps _

end Patterns

/-! ## Lowering -/

/-- What an expression is lowered to shows the characters, as a term and as statements. -/
structure Lowered.Shows (dialect : Dialect) (own : List Char) (lowered : Lowered) : Prop where
  term : Shown own (lowered.toTerm.text dialect)
  statements : Keeps dialect own lowered.toStatements

section Lowering

variable {dialect : Dialect} {quotation : Quotation}

theorem shows_term (movable : Movable quotation.text.toList) {value : Term}
    (shown : Shown quotation.text.toList (value.text dialect)) :
    Lowered.Shows dialect quotation.text.toList (.term value) := by
  refine ⟨shown, keeps_cons ?_ []⟩
  rw [Statement.lines]
  exact ((shown.after "return ").before ";").statementLines movable

theorem shows_statements {body : List Statement} (keeps : Keeps dialect quotation.text.toList body) :
    Lowered.Shows dialect quotation.text.toList (.statements body) := by
  refine ⟨?_, keeps⟩
  unfold Lowered.toTerm Term.text
  exact ShownIn.immediateText keeps dialect

/-- Terms show what one of them shows. -/
theorem text_mem_texts {item : Term} {items : List Term} (member : item ∈ items) :
    item.text dialect ∈ Term.texts dialect items := by
  induction items with
  | nil => cases member
  | cons first rest step =>
    rw [Term.texts]
    rcases List.mem_cons.mp member with rfl | later
    · exact List.mem_cons_self
    · exact List.mem_cons_of_mem _ (step later)

theorem Shown.texts {item : Term} {items : List Term} {own : List Char} (shown : Shown own (item.text dialect))
    (member : item ∈ items) : Shown own (Text.commaSeparated (Term.texts dialect items)) :=
  shown.commaSeparated (text_mem_texts member)

theorem entry_mem_entries {field : TermField} {fields : List TermField} (member : field ∈ fields) :
    entryText field.name (field.value.text dialect) ∈ Term.entries dialect fields := by
  induction fields with
  | nil => cases member
  | cons first rest step =>
    obtain ⟨name, value⟩ := first
    rw [Term.entries]
    rcases List.mem_cons.mp member with rfl | later
    · exact List.mem_cons_self
    · exact List.mem_cons_of_mem _ (step later)

theorem Shown.entries (movable : Movable quotation.text.toList) {field : TermField} {fields : List TermField}
    (shown : Shown quotation.text.toList (field.value.text dialect)) (member : field ∈ fields) (base : List String) :
    Shown quotation.text.toList (Ecma.recordText (base ++ Term.entries dialect fields)) :=
  (shown.entryText field.name).recordText movable (List.mem_append_right _ (entry_mem_entries member))

/-- An operation shows what one of its operands shows. -/
theorem shown_operationTerm (operator : BinaryOperator) {left right : Term} {own : List Char}
    (shown : Shown own (left.text dialect) ∨ Shown own (right.text dialect)) :
    Shown own ((operationTerm operator left right).text dialect) := by
  unfold operationTerm
  split
  · unfold Term.text
    rcases shown with inLeft | inRight
    · exact (((inLeft.after "[ ").before _).before _).before _
    · exact ((inRight.operandText _ _ _).after _).before _
  · unfold Term.text
    rcases shown with inLeft | inRight
    · exact ((((inLeft.operandText _ _ _).before _).before _).before _).before _
    · exact (inRight.operandText _ _ _).after _

/-- An application shows what its function or its argument shows. -/
theorem shown_application {function argument : Term} {own : List Char}
    (shown : Shown own (function.text dialect) ∨ Shown own (argument.text dialect)) :
    Shown own ((Term.application function argument).text dialect) := by
  unfold Term.text
  rcases shown with inFunction | inArgument
  · exact inFunction.parenthesised.before _
  · exact inArgument.parenthesised.after _

/-- A conditional term shows what one of its parts shows. -/
theorem shown_conditional {test whenTrue whenFalse : Term} {own : List Char}
    (shown : Shown own (test.text dialect) ∨ Shown own (whenTrue.text dialect) ∨ Shown own (whenFalse.text dialect)) :
    Shown own ((Term.conditional test whenTrue whenFalse).text dialect) := by
  unfold Term.text
  rcases shown with inTest | inTrue | inFalse
  · exact ((((inTest.operandText 1 false _).before _).before _).before _).before _
  · exact (((inTrue.branchText _).after _).before _).before _
  · exact (inFalse.branchText _).after _

/-- A choice between two blocks shows what its test or one of the blocks shows. -/
theorem shows_choose (movable : Movable quotation.text.toList) {test : Term} {whenTrue whenFalse : List Statement}
    (shown : Shown quotation.text.toList (test.text dialect) ∨ Keeps dialect quotation.text.toList whenTrue ∨
      Keeps dialect quotation.text.toList whenFalse) :
    Lowered.Shows dialect quotation.text.toList (.statements [.choose test whenTrue whenFalse]) := by
  refine shows_statements (keeps_cons ?_ [])
  rw [Statement.lines]
  rcases shown with inTest | inBlock
  · exact inTest.chooseLines movable _ _
  · exact ShownIn.chooseLines movable inBlock _

/-- What follows a body gets statements that show the quotations of its definitions and of its result. -/
theorem Yields.body {α : Type} {locals : List Block} {result : Expression} {property : α → Prop}
    {next : List Statement → Lowered → Lowering α}
    (found : quotation ∈ Block.quotationsOfEach locals ++ result.quotations)
    (ofLocals : quotation ∈ Block.quotationsOfEach locals →
      Yields (lowerBlocks dialect locals) (Keeps dialect quotation.text.toList))
    (ofResult : quotation ∈ result.quotations →
      Yields (lower dialect true result) (Lowered.Shows dialect quotation.text.toList))
    (later : ∀ locals result, Keeps dialect quotation.text.toList (locals ++ result.toStatements) →
      Yields (next locals result) property) :
    Yields (lowerBlocks dialect locals >>= fun locals => lower dialect true result >>= fun result => next locals result)
      property := by
  rcases List.mem_append.mp found with inLocals | inResult
  · exact (ofLocals inLocals).bind fun locals keeps => .after _ fun result => later locals result (keeps.before _)
  · exact .after _ fun locals => (ofResult inResult).bind fun result shows =>
      later locals result (shows.statements.after _)

variable (dialect) (movable : Movable quotation.text.toList)

include movable

/-- A conditional becomes a choice or a term, and either shows what its parts show. -/
theorem shows_conditional (atEnd : Bool) {predicate yes no : Expression} {yesLocals noLocals : List Block}
    (found : quotation ∈ (Expression.conditional predicate ⟨yesLocals, yes⟩ ⟨noLocals, no⟩).quotations)
    (ofTest : quotation ∈ predicate.quotations →
      Yields (lower dialect false predicate) (Lowered.Shows dialect quotation.text.toList))
    (ofYesLocals : quotation ∈ Block.quotationsOfEach yesLocals →
      Yields (lowerBlocks dialect yesLocals) (Keeps dialect quotation.text.toList))
    (ofYes : ∀ atEnd, quotation ∈ yes.quotations →
      Yields (lower dialect atEnd yes) (Lowered.Shows dialect quotation.text.toList))
    (ofNoLocals : quotation ∈ Block.quotationsOfEach noLocals →
      Yields (lowerBlocks dialect noLocals) (Keeps dialect quotation.text.toList))
    (ofNo : ∀ atEnd, quotation ∈ no.quotations →
      Yields (lower dialect atEnd no) (Lowered.Shows dialect quotation.text.toList)) :
    Yields (lower dialect atEnd (.conditional predicate ⟨yesLocals, yes⟩ ⟨noLocals, no⟩))
      (Lowered.Shows dialect quotation.text.toList) := by
  rw [Expression.quotations, Body.quotations, Body.quotations, List.mem_append, List.mem_append] at found
  rw [lower]
  by_cases blocks : (atEnd || !yesLocals.isEmpty || !noLocals.isEmpty) = true
  · simp only [blocks, if_true]
    rcases found with (inTest | inYes) | inNo
    · exact (ofTest inTest).bind fun test shows => .after _ fun _ => .after _ fun _ => .after _ fun _ =>
        .after _ fun _ => .pure (shows_choose movable (.inl shows.term))
    · exact .after _ fun test => .body inYes ofYesLocals (ofYes true) fun yesLocals yes keeps =>
        .after _ fun _ => .after _ fun _ => .pure (shows_choose movable (.inr (.inl keeps)))
    · exact .after _ fun test => .after _ fun _ => .after _ fun _ => .body inNo ofNoLocals (ofNo true)
        fun noLocals no keeps => .pure (shows_choose movable (.inr (.inr keeps)))
  · obtain ⟨⟨-, rfl⟩, rfl⟩ : (atEnd = false ∧ yesLocals = []) ∧ noLocals = [] := by simpa using blocks
    simp only [blocks]
    rcases found with (inTest | inYes) | inNo
    · exact (ofTest inTest).bind fun test shows => .after _ fun _ => .after _ fun _ =>
        .pure (shows_term movable (shown_conditional (.inl shows.term)))
    · exact .after _ fun test => (ofYes false inYes).bind fun yes shows => .after _ fun _ =>
        .pure (shows_term movable (shown_conditional (.inr (.inl shows.term))))
    · exact .after _ fun test => .after _ fun yes => (ofNo false inNo).bind fun no shows =>
        .pure (shows_term movable (shown_conditional (.inr (.inr shows.term))))

/-- An operation, pipes among them, becomes a term that shows what its operands show. -/
theorem shows_binary (atEnd : Bool) (operator : BinaryOperator) {left right : Expression}
    (found : quotation ∈ left.quotations ∨ quotation ∈ right.quotations)
    (ofLeft : quotation ∈ left.quotations →
      Yields (lower dialect false left) (Lowered.Shows dialect quotation.text.toList))
    (ofRight : quotation ∈ right.quotations →
      Yields (lower dialect false right) (Lowered.Shows dialect quotation.text.toList)) :
    Yields (lower dialect atEnd (.binary operator left right)) (Lowered.Shows dialect quotation.text.toList) := by
  by_cases pipe : operator = .pipeInto
  · subst pipe
    rw [lower]
    rcases found with inLeft | inRight
    · exact .after _ fun function => (ofLeft inLeft).bind fun argument shows =>
        .pure (shows_term movable (shown_application (.inr shows.term)))
    · exact (ofRight inRight).bind fun function shows => .after _ fun argument =>
        .pure (shows_term movable (shown_application (.inl shows.term)))
  -- the other operators are lowered alike, but for `<|`
  have either {left right : Term} (shown : Shown quotation.text.toList (left.text dialect) ∨
      Shown quotation.text.toList (right.text dialect)) :
      Yields (if operator == .pipeFrom then pure (.term (.application left right))
        else pure (.term (operationTerm operator left right))) (Lowered.Shows dialect quotation.text.toList) := by
    split
    · exact .pure (shows_term movable (shown_application shown))
    · exact .pure (shows_term movable (shown_operationTerm operator shown))
  rw [lower]
  · rcases found with inLeft | inRight
    · exact (ofLeft inLeft).bind fun left shows => .after _ fun right => either (.inl shows.term)
    · exact .after _ fun left => (ofRight inRight).bind fun right shows => either (.inr shows.term)
  · exact pipe

mutual

/-- **An expression is lowered to what shows its quotations.** -/
theorem shows_lower (atEnd : Bool) : ∀ expression : Expression, quotation ∈ expression.quotations →
    Yields (lower dialect atEnd expression) (Lowered.Shows dialect quotation.text.toList)
  | .string text, found => by
    obtain rfl := List.mem_singleton.mp found
    rw [lower]
    exact .pure (shows_term movable ⟨0, List.infix_refl _⟩)
  | .formatString text, found => by
    obtain rfl := List.mem_singleton.mp found
    rw [lower]
    exact .pure (shows_term movable ⟨0, List.infix_refl _⟩)
  | .value _, found | .range _ _, found => by cases found
  | .list items, found => by
    rw [lower]
    refine (shown_lowerEach items found).bind fun terms shown => .pure (shows_term movable ?_)
    obtain ⟨item, member, shown⟩ := shown
    cases terms with
    | nil => cases member
    | cons first rest =>
      unfold Term.text
      exact ((shown.texts member).after "[ ").before " ]"
  | .record ⟨base, fields⟩, found => by
    rw [lower]
    refine (shown_lowerFields fields found).bind fun lowered shown => .pure (shows_term movable ?_)
    obtain ⟨field, member, shown⟩ := shown
    unfold Term.text
    exact shown.entries movable member _
  | .conditional predicate ⟨yesLocals, yes⟩ ⟨noLocals, no⟩, found =>
    shows_conditional dialect movable atEnd found (shows_lower false predicate) (keeps_lowerBlocks yesLocals)
      (fun atEnd => shows_lower atEnd yes) (keeps_lowerBlocks noLocals) fun atEnd => shows_lower atEnd no
  | .caseOf predicate branches, found => by
    rw [lower]
    rw [Expression.quotations, List.mem_append] at found
    rcases found with inPredicate | inBranches
    · refine (shows_lower false predicate inPredicate).bind fun value shows => .after _ fun name =>
        .after _ fun branches => .pure (shows_statements ?_)
      exact keeps_caseStatements dialect movable name _ (.inl shows.term)
    · refine .after _ fun value => .after _ fun name => (found_lowerBranches branches inBranches).bind
        fun branches inside => .pure (shows_statements ?_)
      exact keeps_caseStatements dialect movable name _ (.inr inside)
  | .binary operator left right, found =>
    shows_binary dialect movable atEnd operator (List.mem_append.mp found) (shows_lower false left) (shows_lower false right)
  | .call name arguments, found => by
    rw [lower]
    refine (shown_lowerEach arguments found).bind fun terms shown => .pure (shows_term movable ?_)
    obtain ⟨item, member, shown⟩ := shown
    unfold Term.text
    exact (shown.texts member).parenthesised.after name
  | .lambda ⟨parameters, body⟩, found => by
    rw [lower]
    refine (shows_lower true body found).bind fun lowered shows => .pure (shows_term movable ?_)
    unfold Term.text
    exact ShownIn.functionText shows.statements _
  | .lambdaCall ⟨parameters, body⟩ arguments, found => by
    rw [lower]
    rw [Expression.quotations, List.mem_append] at found
    rcases found with inBody | inArguments
    · refine .after _ fun arguments => (shows_lower true body inBody).bind fun lowered shows =>
        .pure (shows_term movable ?_)
      unfold Term.text
      exact (ShownIn.functionText shows.statements _).parenthesised.before _
    · refine (shown_lowerEach arguments inArguments).bind fun terms shown => .after _ fun body =>
        .pure (shows_term movable ?_)
      obtain ⟨item, member, shown⟩ := shown
      unfold Term.text
      exact (shown.texts member).parenthesised.after _
  | .construct tag ⟨base, fields⟩, found => by
    rw [lower]
    refine (shown_lowerFields fields found).bind fun lowered shown => .pure (shows_term movable ?_)
    obtain ⟨field, member, shown⟩ := shown
    unfold Term.text
    exact (shown.entries movable member _).parenthesised.after tag
  | .reference path value, found => by
    rw [lower]
    refine (shows_lower false value found).bind fun lowered shows => .pure (shows_term movable ?_)
    unfold Term.text
    exact shows.term.after _

theorem shown_lowerEach : ∀ items : List Expression, quotation ∈ Expression.quotationsOfEach items →
    Yields (lowerEach dialect items) fun terms => ∃ term ∈ terms, Shown quotation.text.toList (term.text dialect)
  | [], found => by cases found
  | item :: rest, found => by
    rw [lowerEach]
    rcases List.mem_append.mp found with first | later
    · exact (shows_lower false item first).bind fun lowered shows => .after _ fun others =>
        .pure ⟨_, List.mem_cons_self, shows.term⟩
    · exact .after _ fun _ => (shown_lowerEach rest later).bind fun others shown =>
        .pure (shown.imp fun term inside => ⟨List.mem_cons_of_mem _ inside.1, inside.2⟩)

theorem shown_lowerFields : ∀ fields : List Field, quotation ∈ Field.quotationsOfEach fields →
    Yields (lowerFields dialect fields) fun lowered =>
      ∃ field ∈ lowered, Shown quotation.text.toList (field.value.text dialect)
  | [], found => by cases found
  | ⟨name, value⟩ :: rest, found => by
    rw [lowerFields]
    rcases List.mem_append.mp found with first | later
    · exact (shows_lower false value first).bind fun lowered shows => .after _ fun others =>
        .pure ⟨_, List.mem_cons_self, shows.term⟩
    · exact .after _ fun _ => (shown_lowerFields rest later).bind fun others shown =>
        .pure (shown.imp fun field inside => ⟨List.mem_cons_of_mem _ inside.1, inside.2⟩)

theorem keeps_lowerBlocks : ∀ blocks : List Block, quotation ∈ Block.quotationsOfEach blocks →
    Yields (lowerBlocks dialect blocks) (Keeps dialect quotation.text.toList)
  | [], found => by cases found
  | block :: rest, found => by
    rw [lowerBlocks]
    rcases List.mem_append.mp found with first | later
    · refine (shown_lowerBlock block first).bind fun declaration shown => .after _ fun others => .pure ?_
      refine keeps_cons ?_ _
      rw [Statement.lines]
      exact shown.statementLines movable
    · exact .after _ fun _ => (keeps_lowerBlocks rest later).bind fun others keeps => .pure (keeps.cons _)

/-- **A definition shows its quotations.** -/
theorem shown_lowerBlock : ∀ block : Block, quotation ∈ block.quotations →
    Yields (lowerBlock dialect block) fun declaration => Shown quotation.text.toList (declaration.text dialect)
  | .function ⟨name, returnType, parameters, ⟨locals, result⟩⟩, found => by
    rw [lowerBlock]
    refine .body found (keeps_lowerBlocks locals) (shows_lower true result) fun locals result keeps => .pure ?_
    rw [Declaration.text]
    exact ShownIn.functionText keeps _
  | .constant ⟨name, type, ⟨locals, result⟩⟩, found => by
    rw [lowerBlock]
    split
    · rename_i none
      obtain rfl := List.isEmpty_iff.mp none
      refine (shows_lower false result found).bind fun value shows => .pure ?_
      rw [Declaration.text]
      exact (shows.term.after _).before _
    · refine .body found (keeps_lowerBlocks locals) (shows_lower true result) fun locals result keeps => .pure ?_
      rw [Declaration.text]
      refine Shown.before (Shown.after ?_ _) _
      unfold Term.text
      exact ShownIn.immediateText keeps dialect
  | .imports _, found | .exports _, found | .union _, found | .alias _, found | .comment _, found
  | .multilineComment _, found => by cases found

theorem found_lowerBranches : ∀ branches : List Branch, quotation ∈ Branch.quotationsOfEach branches →
    Yields (lowerBranches dialect branches) fun lowered =>
      ∃ branch ∈ lowered, quotation ∈ branch.1.quotations ∨ Keeps dialect quotation.text.toList branch.2
  | [], found => by cases found
  | ⟨pattern, ⟨locals, result⟩⟩ :: rest, found => by
    rw [lowerBranches]
    rw [Branch.quotationsOfEach, List.mem_append, List.mem_append] at found
    rcases found with (inPattern | inBody) | later
    · exact .after _ fun locals => .after _ fun result => .after _ fun others =>
        .pure ⟨_, List.mem_cons_self, .inl inPattern⟩
    · exact .body inBody (keeps_lowerBlocks locals) (shows_lower true result) fun locals result keeps =>
        .after _ fun others => .pure ⟨_, List.mem_cons_self, .inr keeps⟩
    · exact .after _ fun locals => .after _ fun result => (found_lowerBranches rest later).bind fun others inside =>
        .pure (inside.imp fun branch among => ⟨List.mem_cons_of_mem _ among.1, among.2⟩)

end

/-- The declarations of blocks show the quotations of each. -/
theorem shown_declarations {blocks : List Block} (found : quotation ∈ Block.quotationsOfEach blocks) :
    Yields (declarations dialect blocks) fun lowered =>
      ∃ declaration ∈ lowered, Shown quotation.text.toList (declaration.text dialect) := by
  induction blocks with
  | nil => cases found
  | cons block rest step =>
    rw [declarations]
    rcases List.mem_append.mp found with first | later
    · exact (shown_lowerBlock dialect movable block first).bind fun declaration shown => .after _ fun others =>
        .pure ⟨declaration, List.mem_cons_self, shown⟩
    · exact .after _ fun _ => (step later).bind fun others shown =>
        .pure (shown.imp fun declaration inside => ⟨List.mem_cons_of_mem _ inside.1, inside.2⟩)

/-- A module shows its quotations. -/
theorem shown_module {source : Module} {block : Block} (member : block ∈ source.body)
    (found : quotation ∈ block.quotations) : Shown quotation.text.toList (module dialect source) := by
  have direct := mem_quotations_directBlocks source.body (Block.mem_quotationsOfEach.mpr ⟨block, member, found⟩)
  obtain ⟨declaration, inside, shown⟩ := shown_declarations dialect movable direct {}
  have declared : declaration ∈ moduleDeclarations dialect source := List.mem_append_right _ inside
  refine shown.among (List.mem_filter.mpr ⟨List.mem_map_of_mem declared, ?_⟩) "\n\n"
  -- a text that shows something is not empty
  obtain ⟨levels, part⟩ := shown
  obtain ⟨c, rest, start, -⟩ := (movable.iterate levels).solid.1
  rw [start] at part
  have some_ : declaration.text dialect ≠ "" := by
    intro empty
    rw [empty] at part
    exact absurd (part.subset List.mem_cons_self) (by simp)
  simpa using some_

end Lowering

/-! ## Modules -/

/-- The quotes show, and so quotations can be moved in. -/
theorem movable_quotation {quotation : Quotation} (uniform : ¬ ['\r', '\n'] <:+: quotation.text.toList) :
    Movable quotation.text.toList := by
  have solid : Solid quotation.text.toList := by
    cases quotation with
    | plain text =>
      rw [Quotation.text, Text.quoted, String.toList_append, String.toList_append]
      exact ⟨⟨'"', text.toList ++ ['"'], by simp, by decide⟩, ⟨'"' :: text.toList, '"', by simp, by decide⟩⟩
    | template text =>
      rw [Quotation.text, Text.backquoted, String.toList_append, String.toList_append]
      exact ⟨⟨'\x60', text.toList ++ ['\x60'], by simp, by decide⟩, ⟨'\x60' :: text.toList, '\x60', by simp, by decide⟩⟩
  exact ⟨solid, lined_of_uniform solid.2 uniform⟩

/-- **Quotations are kept.** A quotation of the source, at any depth, is part of the generated program: with every character
where it stands on a single line, and else with its further lines some levels in. -/
theorem quotation_kept (dialect : Dialect) {source : Module} {block : Block} (member : block ∈ source.body)
    {quotation : Quotation} (found : quotation ∈ block.quotations) :
    ('\n' ∉ quotation.text.toList → quotation.text.toList <:+: (module dialect source).toList) ∧
      (¬ ['\r', '\n'] <:+: quotation.text.toList →
        ∃ levels, (Text.indentTail^[levels] quotation.text).toList <:+: (module dialect source).toList) := by
  constructor
  · intro flat
    have movable := movable_quotation (not_infix_of_flat flat)
    obtain ⟨levels, inside⟩ := shown_module dialect movable member found
    rwa [iterate_flat flat] at inside
  · intro uniform
    have movable := movable_quotation uniform
    obtain ⟨levels, inside⟩ := shown_module dialect movable member found
    refine ⟨levels, ?_⟩
    rwa [toList_iterate_indentTail movable.solid]

/-- A function whose case compares with a text, and gives a function that makes a list of a format string of two lines. -/
def letters : Module :=
  ⟨"Main", [.function ⟨"f", .named "any" [], [.named "x" (.named "any" [])], ⟨[], .caseOf (.value "x")
    [⟨.string "an  a", ⟨[], .call "g" [.lambda ⟨["y"], .list [.formatString "a\n  b"]⟩]⟩⟩,
      ⟨.otherwise, ⟨[], .value "x"⟩⟩]⟩⟩], []⟩

/-- The text keeps its two blanks, and the format string is there with its second line moved in. -/
theorem quotation_kept_letters :
    "\"an  a\"".toList <:+: (module .javaScript letters).toList ∧
      ∃ levels, (Text.indentTail^[levels] (Text.backquoted "a\n  b")).toList <:+: (module .javaScript letters).toList :=
  ⟨(@quotation_kept .javaScript letters _ List.mem_cons_self (.plain "an  a")
      (by simp [Block.quotations, Body.quotations, Expression.quotations, Branch.quotationsOfEach, Pattern.quotations])).1
      (by decide),
    (@quotation_kept .javaScript letters _ List.mem_cons_self (.template "a\n  b")
      (by simp [Block.quotations, Body.quotations, Expression.quotations, Expression.quotationsOfEach, Lambda.quotations,
        Branch.quotationsOfEach, Pattern.quotations])).2 (by decide +kernel)⟩

/-- A function that gives a format string of two lines. -/
def brokenLine : Module :=
  ⟨"Main", [.function ⟨"f", .named "any" [], [.named "x" (.named "any" [])], ⟨[], .formatString "a\nb"⟩⟩], []⟩

/-- **The second line of a quotation moves** with the body that it stands in, and is part of the text at run time. -/
theorem second_line_moves :
    module .javaScript brokenLine = "function f(x) \x7b\n    return \x60a\n    b\x60;\n\x7d" ∧
      ¬ (Quotation.template "a\nb").text.toList <:+: (module .javaScript brokenLine).toList := by
  have text : module .javaScript brokenLine = "function f(x) \x7b\n    return \x60a\n    b\x60;\n\x7d" := by
    have direct : Block.directEach brokenLine.body = brokenLine.body := by
      rw [brokenLine, Block.directEach, Block.directEach, Block.direct, Body.direct, Block.directEach, Expression.direct_eq]
      simp [Expression.flattenPipes, Expression.inward]
    rw [module_of_direct direct (by decide)]
    decide +kernel
  refine ⟨text, ?_⟩
  rw [text]
  decide +kernel

end DerwLang.Ecma
