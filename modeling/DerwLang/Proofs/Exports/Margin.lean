/-
**The margin of a script.**

The further lines of what a term or a definition is written as are moved in, or they close a bracket. So no line feed in it
stands in front of an `e`, the first letter of `export` (`Inset`):

* `Fits`: texts that go into a line keep this up when they are put side by side;
* `inset_blockLines`, `fits_functionText`: lines in brackets keep it up whatever they start with, since they are moved in;
* `inset_listPattern`, `inset_caseStatements`: so do the statements of list patterns and of cases.

Names and literals have to stand on a single line for it (`Unbroken`).
-/

import DerwLang.Ecma.Lowering
import DerwLang.Proofs.Case.Scopes
import DerwLang.Proofs.Layout.Indent
import Mathlib.Data.List.Chain

namespace DerwLang

/-- The text stands on a single line. -/
def Unbroken (text : String) : Prop :=
  '\n' ∉ text.toList

instance (text : String) : Decidable (Unbroken text) :=
  inferInstanceAs (Decidable ('\n' ∉ text.toList))

/-- What the part is compared with or named stands on a single line. -/
def ListPart.Unbroken : ListPart → Prop
  | .emptyList => True
  | .string text | .formatString text | .name text => DerwLang.Unbroken text
  | .tag pattern => DerwLang.Unbroken pattern.tag

/-- What the pattern is compared with or named stands on a single line. -/
def Pattern.Unbroken : Pattern → Prop
  | .tag pattern => DerwLang.Unbroken pattern.tag
  | .string text | .formatString text => DerwLang.Unbroken text
  | .list parts => ∀ part ∈ parts, part.Unbroken
  | .emptyList | .otherwise => True

section Unbroken

variable {text other between : String} {texts : List String}

theorem unbroken_append : Unbroken (text ++ other) ↔ Unbroken text ∧ Unbroken other := by
  simp [Unbroken]

theorem Unbroken.append (one : Unbroken text) (two : Unbroken other) : Unbroken (text ++ other) :=
  unbroken_append.mpr ⟨one, two⟩

/-- What is in none of the texts and not between them is not in the whole. -/
theorem not_mem_intercalate {c : Char} (glue : c ∉ between.toList) (each : ∀ text ∈ texts, c ∉ text.toList) :
    c ∉ (String.intercalate between texts).toList := by
  cases texts with
  | nil => simp
  | cons first rest =>
    obtain ⟨one, others⟩ := List.forall_mem_cons.mp each
    rw [String.toList_intercalate, List.map_cons, Layout.intercalate_cons, List.mem_append, List.mem_flatMap, not_or]
    refine ⟨one, ?_⟩
    rintro ⟨own, member, inside⟩
    obtain ⟨text, among, rfl⟩ := List.mem_map.mp member
    exact (List.mem_append.mp inside).elim glue (others text among)

theorem unbroken_intercalate (glue : Unbroken between) (each : ∀ text ∈ texts, Unbroken text) :
    Unbroken (String.intercalate between texts) :=
  not_mem_intercalate glue each

theorem Unbroken.parenthesised (flat : Unbroken text) : Unbroken (Text.parenthesised text) :=
  (Unbroken.append (by decide) flat).append (by decide)

theorem Unbroken.braced (flat : Unbroken text) : Unbroken (Text.braced text) :=
  (Unbroken.append (by decide) flat).append (by decide)

theorem unbroken_commaSeparated (each : ∀ text ∈ texts, Unbroken text) : Unbroken (Text.commaSeparated texts) :=
  unbroken_intercalate (by decide) each

theorem unbroken_toString (number : Nat) : Unbroken (toString number) :=
  fun feed => absurd (Ecma.isNameCharacter_digits number _ feed) (by decide)

/-- The lines of a text stand on single lines. -/
theorem unbroken_of_mem_lines {line : String} (member : line ∈ Text.lines text) : Unbroken line := by
  obtain ⟨own, among, rfl⟩ := List.mem_map.mp member
  rw [Unbroken, String.toList_ofList]
  exact Layout.flat_linesOf _ own among

end Unbroken

namespace Ecma

/-! ## Texts -/

/-- No line feed stands in front of an `e`. -/
def Inset (own : List Char) : Prop :=
  own.IsChain fun c d => c = '\n' → d ≠ 'e'

/-- No line feed stands in front of an `e`, whatever comes behind the characters. -/
structure Closed (own : List Char) : Prop where
  inset : Inset own
  last : own.getLast? ≠ some '\n'

instance (own : List Char) : Decidable (Inset own) :=
  inferInstanceAs (Decidable (own.IsChain _))

instance (own : List Char) : Decidable (Closed own) :=
  decidable_of_iff (Inset own ∧ own.getLast? ≠ some '\n') ⟨fun both => ⟨both.1, both.2⟩, fun closed => ⟨closed.1, closed.2⟩⟩

/-- The text may stand within a line. -/
def Fits (text : String) : Prop :=
  Closed text.toList

instance (text : String) : Decidable (Fits text) :=
  inferInstanceAs (Decidable (Closed text.toList))

section Texts

variable {own first second : List Char} {text other : String} {texts : List String}

theorem Inset.append (one : Inset first) (two : Inset second)
    (apart : first.getLast? ≠ some '\n' ∨ second.head? ≠ some 'e') : Inset (first ++ second) := by
  refine List.isChain_append.mpr ⟨one, two, ?_⟩
  rintro c last d start rfl rfl
  exact apart.elim (fun open_ => open_ last) (fun open_ => open_ start)

theorem inset_of_flat (flat : '\n' ∉ own) : Inset own := by
  induction own with
  | nil => exact .nil
  | cons c rest step =>
    rw [List.mem_cons, not_or] at flat
    exact List.IsChain.cons (step flat.2) fun _ _ feed => absurd feed.symm flat.1

/-- What follows a line feed may stand anywhere. -/
theorem Inset.tail (inset : Inset ('\n' :: own)) : Inset own :=
  List.IsChain.tail inset

theorem Inset.append_feed (one : Inset first) (after : List Char) (two : Inset ('\n' :: after)) :
    Inset (first ++ '\n' :: after) :=
  one.append two (.inr (by simp))

/-- Pieces may follow each other if each may stand behind what comes in front of it. -/
theorem inset_flatMap {between : List Char} {rest : List (List Char)} (start : between.head? ≠ some 'e') (some_ : between ≠ [])
    (one : Inset first) (others : ∀ own ∈ rest, Inset (between ++ own)) : Inset (first ++ rest.flatMap (between ++ ·)) := by
  induction rest generalizing first with
  | nil => rwa [List.flatMap_nil, List.append_nil]
  | cons next rest step =>
    obtain ⟨own, later⟩ := List.forall_mem_cons.mp others
    rw [List.flatMap_cons, ← List.append_assoc]
    refine step (one.append own (.inr ?_)) later
    rwa [List.head?_append_of_ne_nil _ some_]

theorem fits_of_flat (flat : Unbroken text) : Fits text :=
  ⟨inset_of_flat flat, fun last => flat (List.mem_of_getLast? last)⟩

theorem Closed.append (one : Closed first) (two : Closed second) : Closed (first ++ second) where
  inset := one.inset.append two.inset (.inl one.last)
  last := by
    rw [List.getLast?_append]
    cases last : second.getLast? with
    | none => simpa using one.last
    | some c => simpa [last] using two.last

/-- What starts with something else than an `e` may stand behind a line feed. -/
theorem Inset.closed (one : Inset first) (two : Closed second) (start : second.head?.any (· != 'e') = true) :
    Closed (first ++ second) := by
  cases second with
  | nil => cases start
  | cons c rest =>
    refine ⟨one.append two.inset (.inr fun same => ?_), ?_⟩
    · obtain rfl := Option.some.inj same
      simp at start
    · rw [List.getLast?_append_of_ne_nil _ (List.cons_ne_nil c rest)]
      exact two.last

theorem Fits.append (one : Fits text) (two : Fits other) : Fits (text ++ other) := by
  rw [Fits, String.toList_append]
  exact Closed.append one two

theorem fits_commaSeparated (fits : ∀ text ∈ texts, Fits text) : Fits (Text.commaSeparated texts) := by
  induction texts with
  | nil => exact fits_of_flat (by decide)
  | cons text rest step =>
    obtain ⟨first, others⟩ := List.forall_mem_cons.mp fits
    cases rest with
    | nil => simpa [Text.commaSeparated] using first
    | cons next more =>
      have apart : Text.commaSeparated (text :: next :: more) = text ++ ", " ++ Text.commaSeparated (next :: more) := by
        rw [← String.toList_inj]
        simp [Text.commaSeparated, String.toList_intercalate]
      rw [apart]
      exact (first.append (fits_of_flat (by decide))).append (step others)

theorem Fits.parenthesised (fits : Fits text) : Fits (Text.parenthesised text) :=
  (Fits.append (fits_of_flat (by decide)) fits).append (fits_of_flat (by decide))

end Texts

/-! ## Lines -/

/-- No line feed in the lines stands in front of an `e`. -/
def InsetLines (lines : List String) : Prop :=
  ∀ line ∈ lines, Inset line.toList

section Lines

variable {head line text : String} {lines body others : List String}

/-- Lines that are moved in do not start with an `e`. -/
theorem inset_indentLine (inset : Inset line.toList) : Inset ('\n' :: (Text.indentLine line).toList) := by
  unfold Text.indentLine
  split
  · exact .singleton _
  · rw [String.toList_append]
    have start : Inset ('\n' :: Text.indentation.toList) := by decide
    exact start.append inset (.inl (by decide))

theorem inset_settleLine (inset : Inset line.toList) : Inset (Text.settleLine line).toList := by
  unfold Text.settleLine
  split
  · exact .nil
  · exact inset

/-- The lines of a statement are inset whatever its text is, as they are taken apart. -/
theorem inset_statementLines (text : String) : InsetLines (statementLines text) := by
  intro line member
  obtain ⟨own, among, rfl⟩ := List.mem_map.mp member
  exact inset_settleLine (inset_of_flat (unbroken_of_mem_lines among))

theorem inset_head (inset : Inset head.toList) : Inset (head ++ " \x7b").toList := by
  rw [String.toList_append]
  exact inset.append (inset_of_flat (by decide)) (.inr (by decide))

theorem InsetLines.moved (inset : InsetLines lines) : InsetLines (lines.map Text.indentLine) := by
  intro line member
  obtain ⟨own, among, rfl⟩ := List.mem_map.mp member
  exact (inset_indentLine (inset own among)).tail

theorem inset_closing {close : String} (flat : Unbroken close) : InsetLines [close] :=
  List.forall_mem_singleton.mpr (inset_of_flat flat)

theorem inset_blockLines (start : Inset head.toList) (inset : InsetLines body) : InsetLines (blockLines head body) :=
  List.forall_mem_cons.mpr ⟨inset_settleLine (inset_head start),
    List.forall_mem_append.mpr ⟨inset.moved, inset_closing (by decide)⟩⟩

theorem inset_guardedLines (start : Fits text) (inset : InsetLines body) : InsetLines (guardedLines text body) :=
  inset_blockLines (Fits.append (fits_of_flat (by decide)) start.parenthesised).inset inset

theorem inset_chooseLines (start : Fits text) (one : InsetLines body) (two : InsetLines others) :
    InsetLines (chooseLines text body others) := by
  have opened : Fits ("if " ++ Text.parenthesised text) := Fits.append (fits_of_flat (by decide)) start.parenthesised
  have head := inset_head opened.inset
  exact List.forall_mem_append.mpr ⟨List.forall_mem_append.mpr ⟨List.forall_mem_append.mpr
    ⟨List.forall_mem_cons.mpr ⟨inset_settleLine head, one.moved⟩, inset_closing (by decide)⟩, two.moved⟩,
      inset_closing (by decide)⟩

/-- The characters of a function: its head, its body on lines that are moved in, and a closing bracket. -/
theorem toList_functionText (head : String) (body : List String) :
    (functionText head body).toList = (head ++ " \x7b").toList ++
      (body.map fun line => (Text.indentLine line).toList).flatMap (['\n'] ++ ·) ++ ['\n', '\x7d'] := by
  have visible : Text.settleLine (head ++ " \x7b") = head ++ " \x7b" := by
    refine if_neg ?_
    rw [Text.isBlankLine, String.toList_append, List.all_append, Bool.and_eq_true, not_and]
    exact fun _ => by decide
  rw [functionText, blockLines, visible, Text.unlines, String.toList_intercalate, List.cons_append, List.map_cons,
    Layout.intercalate_cons, List.map_append, List.map_map, List.flatMap_append, List.append_assoc]
  rfl

/-- A function may stand wherever its head may. -/
theorem inset_functionText (before : List Char) (start : Inset (before ++ head.toList)) (inset : InsetLines body) :
    Inset (before ++ (functionText head body).toList) := by
  have opened : Inset (before ++ (head ++ " \x7b").toList) := by
    rw [String.toList_append, ← List.append_assoc]
    exact start.append (inset_of_flat (by decide)) (.inr (by decide))
  rw [toList_functionText, ← List.append_assoc, ← List.append_assoc]
  refine Inset.append_feed (inset_flatMap (by decide) (by decide) opened fun own member => ?_) ['\x7d'] (by decide)
  obtain ⟨line, among, rfl⟩ := List.mem_map.mp member
  exact inset_indentLine (inset line among)

theorem fits_functionText (start : Inset head.toList) (inset : InsetLines body) : Fits (functionText head body) where
  inset := inset_functionText [] start inset
  last := by
    rw [toList_functionText, List.getLast?_append]
    simp

theorem fits_immediateText (dialect : Dialect) (inset : InsetLines body) : Fits (immediateText dialect body) := by
  refine Fits.append (fits_functionText ?_ inset) (fits_of_flat (by decide))
  split <;> exact inset_of_flat (by decide)

/-! ### Records -/

/-- A text whose further lines are moved in may stand behind something. -/
theorem inset_indentTail (text : String) : Inset (Text.indentTail text).toList := by
  unfold Text.indentTail
  split
  · exact .nil
  · rename_i first rest lines_
    have flat : ∀ line ∈ first :: rest, Unbroken line := fun line member => unbroken_of_mem_lines (lines_ ▸ member)
    obtain ⟨one, others⟩ := List.forall_mem_cons.mp flat
    rw [Text.unlines, String.toList_intercalate, List.map_cons, Layout.intercalate_cons]
    refine inset_flatMap (by decide) (by decide) (inset_of_flat one) fun own member => ?_
    obtain ⟨moved, among, rfl⟩ := List.mem_map.mp member
    obtain ⟨line, inside, rfl⟩ := List.mem_map.mp among
    exact inset_indentLine (inset_of_flat (others line inside))

theorem fits_recordText {entries : List String} (fits : ∀ entry ∈ entries, Fits entry) : Fits (recordText entries) := by
  unfold recordText
  split
  · exact fits_of_flat (by decide)
  · rename_i entry
    exact (Fits.append (fits_of_flat (by decide)) (fits entry (List.mem_singleton_self _))).append (fits_of_flat (by decide))
  · rename_i none_ single
    have piece : ∀ (glue : String) (entry : String), Inset glue.toList →
        Inset (glue.toList ++ (Text.indentation ++ Text.indentTail entry).toList) := by
      intro glue entry inset
      rw [String.toList_append]
      refine inset.append (Inset.append (inset_of_flat (by decide)) (inset_indentTail entry) (.inl (by decide))) (.inr ?_)
      simp [Text.indentation]
    cases entries with
    | nil => exact absurd rfl none_
    | cons first rest =>
      constructor
      · rw [String.toList_append, String.toList_append, String.toList_intercalate, List.map_cons, List.map_cons,
          Layout.intercalate_cons, ← List.append_assoc]
        refine Inset.append_feed (inset_flatMap (by decide) (by decide) ?_ ?_) ['\x7d'] (by decide)
        · exact piece "\x7b\n" first (by decide)
        · intro own member
          obtain ⟨moved, among, rfl⟩ := List.mem_map.mp member
          obtain ⟨entry, -, rfl⟩ := List.mem_map.mp among
          exact piece ",\n" entry (by decide)
      · rw [String.toList_append, List.getLast?_append]
        simp

end Lines

/-! ## Statements -/

/-- No line feed in the lines of the statements stands in front of an `e`. -/
def InsetBody (dialect : Dialect) (body : List Statement) : Prop :=
  InsetLines (Statement.linesOfEach dialect body)

section Statements

variable {dialect : Dialect} {body others : List Statement} {statement : Statement}

theorem insetBody_cons :
    InsetBody dialect (statement :: body) ↔ InsetLines (statement.lines dialect) ∧ InsetBody dialect body := by
  rw [InsetBody, InsetBody, Statement.linesOfEach]
  exact List.forall_mem_append

theorem InsetBody.append (one : InsetBody dialect body) (two : InsetBody dialect others) :
    InsetBody dialect (body ++ others) := by
  induction body with
  | nil => exact two
  | cons statement rest step =>
    obtain ⟨first, later⟩ := insetBody_cons.mp one
    exact insetBody_cons.mpr ⟨first, step later⟩

theorem insetBody_nil : InsetBody dialect [] := nofun

/-- A statement on lines that are taken apart may stand in front of a body. -/
theorem InsetBody.cons (inset : InsetBody dialect body) {text : String} (lines : statement.lines dialect = statementLines text) :
    InsetBody dialect (statement :: body) :=
  insetBody_cons.mpr ⟨lines ▸ inset_statementLines text, inset⟩

theorem InsetBody.guarded (inset : InsetBody dialect body) {condition : Condition} (flat : Unbroken condition.text) :
    InsetBody dialect [.guarded condition body] := by
  refine insetBody_cons.mpr ⟨?_, insetBody_nil⟩
  rw [Statement.lines]
  exact inset_guardedLines (fits_of_flat flat) inset

theorem inset_ite (isBare : Bool) (inset : InsetBody dialect body) {condition : Condition} (flat : Unbroken condition.text) :
    InsetBody dialect (if isBare then body else [.guarded condition body]) := by
  split
  · exact inset
  · exact inset.guarded flat

end Statements

/-! ## List patterns -/

section Patterns

variable {dialect : Dialect} {list : String} {body : List Statement} {part : ListPart} {parts : List ListPart} {index : Nat}

/-- The tests of elements stand on a single line. -/
theorem unbroken_elementTest (short : part.Unbroken) {anchor : Anchor} (anchored : anchor? part = some anchor)
    {subject : String} (flat : Unbroken subject) : Unbroken (ElementTest.text ⟨subject, anchor⟩) := by
  cases part with
  | emptyList | name => simp [anchor?] at anchored
  | tag pattern =>
    obtain rfl := Option.some.inj anchored
    exact flat.append (by decide) |>.append (Unbroken.append (Unbroken.append (by decide) short) (by decide))
  | string text =>
    obtain rfl := Option.some.inj anchored
    exact flat.append (by decide) |>.append (Unbroken.append (Unbroken.append (by decide) short) (by decide))
  | formatString text =>
    obtain rfl := Option.some.inj anchored
    exact flat.append (by decide) |>.append (Unbroken.append (Unbroken.append (by decide) short) (by decide))

theorem unbroken_partTest (short : part.Unbroken) {subject : String} (flat : Unbroken subject) {test : ElementTest}
    (tested : partTest? part subject = some test) : Unbroken test.text := by
  obtain ⟨anchor, anchored, rfl⟩ := Option.map_eq_some_iff.mp tested
  exact unbroken_elementTest short anchored flat

theorem unbroken_elements {tests : List ElementTest} (each : ∀ test ∈ tests, Unbroken test.text) :
    Unbroken (Condition.elements tests).text :=
  unbroken_intercalate (by decide) (List.forall_mem_map.mpr each)

theorem unbroken_elementName (short : part.Unbroken) (index : Nat) : Unbroken (elementName index part) := by
  cases part with
  | name name => exact short
  | emptyList | string | formatString | tag => exact Unbroken.append (by decide) (unbroken_toString index)

theorem unbroken_elementTests (short : ∀ part ∈ parts, part.Unbroken) (index : Nat) :
    ∀ test ∈ elementTests index parts, Unbroken test.text := by
  induction parts generalizing index with
  | nil => nofun
  | cons part rest step =>
    obtain ⟨first, others⟩ := List.forall_mem_cons.mp short
    refine List.forall_mem_append.mpr ⟨fun test member => ?_, step others (index + 1)⟩
    exact unbroken_partTest first (unbroken_elementName first index) (Option.mem_toList.mp member)

theorem inset_fieldBindings (pattern : TagPattern) (subject : String) : InsetBody dialect (fieldBindings pattern subject) := by
  unfold fieldBindings
  split
  · exact insetBody_nil
  · exact insetBody_nil.cons rfl

theorem inset_partBindings (part : ListPart) (subject : String) : InsetBody dialect (partBindings part subject) := by
  unfold partBindings
  split
  · exact inset_fieldBindings _ subject
  · exact insetBody_nil

theorem inset_elementBindings (parts : List ListPart) (index : Nat) : InsetBody dialect (elementBindings index parts) := by
  induction parts generalizing index with
  | nil => exact insetBody_nil
  | cons part rest step => exact (inset_partBindings part _).append (step (index + 1))

theorem inset_positional (short : ∀ part ∈ parts, part.Unbroken) (inset : InsetBody dialect body) :
    InsetBody dialect (positional list parts body) := by
  have split_ : ∀ part ∈ (splitLast parts).1, part.Unbroken := by
    unfold splitLast
    split
    · exact fun part member => short part ((List.dropLast_sublist _).subset member)
    · exact fun part member => short part ((List.dropLast_sublist _).subset member)
    · exact short
  have taken : InsetBody dialect
      (if (splitLast parts).1.isEmpty && (splitLast parts).2.isNone then []
        else [.bindElements (elementNames 0 (splitLast parts).1) (splitLast parts).2 list]) := by
    split
    · exact insetBody_nil
    · exact insetBody_nil.cons rfl
  have bound : InsetBody dialect (elementBindings 0 (splitLast parts).1 ++ body) := (inset_elementBindings _ 0).append inset
  unfold positional
  dsimp only
  split
  · exact taken.append bound
  · exact taken.append (bound.guarded (unbroken_elements (unbroken_elementTests split_ 0)))

theorem inset_peel (flat : Unbroken list) (short : part.Unbroken) (isLast : Bool) (inset : InsetBody dialect body) :
    InsetBody dialect (peel index list part isLast body) := by
  refine inset_ite (index == 0) ?_ (flat.append (by decide))
  split
  · rename_i test tested
    refine InsetBody.cons (InsetBody.guarded ((inset_partBindings part _).append inset) (unbroken_elements ?_)) rfl
    exact List.forall_mem_singleton.mpr (unbroken_partTest short (unbroken_elementName short index) tested)
  · exact inset.cons rfl

theorem unbroken_restName (index : Nat) : Unbroken (restName index) :=
  Unbroken.append (by decide) (unbroken_toString index)

theorem unbroken_foundName (index : Nat) : Unbroken (foundName index) :=
  Unbroken.append (by decide) (unbroken_toString index)

theorem unbroken_cursorName (index : Nat) : Unbroken (cursorName index) :=
  Unbroken.append (by decide) (unbroken_toString index)

theorem inset_searchLines (flat : Unbroken list) (short : part.Unbroken) {anchor : Anchor}
    (anchored : anchor? part = some anchor) (index : Nat) :
    InsetLines (searchLines dialect (foundName index) (cursorName index) list anchor) := by
  have cursor := unbroken_cursorName index
  have element : Unbroken (list ++ "[" ++ cursorName index ++ "]") :=
    ((flat.append (by decide)).append cursor).append (by decide)
  have loop : Unbroken ("for (let " ++ cursorName index ++ " = 0; " ++ cursorName index ++ " < " ++ list ++ ".length; " ++
      cursorName index ++ "++)") := by
    simp only [unbroken_append]
    exact ⟨⟨⟨⟨⟨⟨⟨⟨by decide, cursor⟩, by decide⟩, cursor⟩, by decide⟩, flat⟩, by decide⟩, cursor⟩, by decide⟩
  refine List.forall_mem_append.mpr ⟨inset_statementLines _, inset_blockLines (inset_of_flat loop) ?_⟩
  exact inset_guardedLines (fits_of_flat (unbroken_elementTest short anchored element))
    (List.forall_mem_append.mpr ⟨inset_statementLines _, inset_statementLines _⟩)

theorem inset_gapSearch (flat : Unbroken list) (short : part.Unbroken) {anchor : Anchor}
    (anchored : anchor? part = some anchor) (gap : String) (isLast : Bool) (inset : InsetBody dialect body) :
    InsetBody dialect (gapSearch index gap list part anchor isLast body) := by
  have bound : InsetBody dialect
      (if (partBindings part ("_" ++ toString index)).isEmpty then []
        else .bindElementAt ("_" ++ toString index) list (foundName index) :: partBindings part ("_" ++ toString index)) := by
    split
    · exact insetBody_nil
    · exact (inset_partBindings part _).cons rfl
  have rest : InsetBody dialect (if isLast then [] else [.bindAfter (restName index) list (foundName index)]) := by
    split
    · exact insetBody_nil
    · exact insetBody_nil.cons rfl
  refine insetBody_cons.mpr ⟨inset_searchLines flat short anchored index, InsetBody.guarded ?_ ?_⟩
  · exact InsetBody.cons ((bound.append rest).append inset) rfl
  · exact (unbroken_foundName index).append (by decide)

theorem inset_sequential (flat : Unbroken list) (short : ∀ part ∈ parts, part.Unbroken) (index : Nat)
    (inset : InsetBody dialect body) : InsetBody dialect (sequential index list body parts) := by
  induction index, list, parts using sequential.induct with
  | case1 =>
    rw [sequential]
    exact inset
  | case2 index list =>
    rw [sequential]
    exact inset.guarded ((flat.append (by decide)).append (unbroken_toString 0))
  | case3 =>
    rw [sequential]
    exact inset.cons rfl
  | case4 list name part rest index anchor tested step =>
    rw [sequential.eq_4 _ _ _ _ _ _ _ tested]
    obtain ⟨-, own, others⟩ : _ ∧ part.Unbroken ∧ ∀ part ∈ rest, part.Unbroken := by simpa using short
    exact inset_gapSearch flat own tested name _ (step (unbroken_restName _) others)
  | case5 list name part rest index notSearched step =>
    rw [sequential.eq_5 _ _ _ _ _ _ notSearched]
    obtain ⟨own, others⟩ := List.forall_mem_cons.mp short
    exact inset_peel flat own false (step (unbroken_restName _) others)
  | case6 index list part rest notEnd notLast notName step =>
    rw [sequential.eq_6 _ _ _ _ _ notEnd notLast notName]
    obtain ⟨own, others⟩ := List.forall_mem_cons.mp short
    exact inset_peel flat own _ (step (unbroken_restName _) others)

/-- **The statements of a list pattern are inset** where those of the body are. -/
theorem inset_listPattern (flat : Unbroken list) (short : ∀ part ∈ parts, part.Unbroken)
    (inset : InsetBody dialect body) : InsetBody dialect (listPattern list parts body) := by
  refine InsetBody.guarded ?_ ?_
  · split
    · exact inset_positional short inset
    · exact inset_sequential flat short 0 inset
  · split
    · exact (flat.append (by decide)).append (unbroken_toString _)
    · exact (flat.append (by decide)).append (unbroken_toString _)

end Patterns

/-! ## Cases -/

section Cases

variable {dialect : Dialect} {name : String} {body : List Statement}

theorem inset_cases {cases : List SwitchCase}
    (each : ∀ choice ∈ cases, Unbroken choice.label.text ∧ InsetBody dialect choice.body) :
    InsetLines (SwitchCase.linesOfEach dialect cases) := by
  induction cases with
  | nil => nofun
  | cons choice rest step =>
    obtain ⟨⟨label, inner⟩, others⟩ := List.forall_mem_cons.mp each
    cases choice
    rw [SwitchCase.linesOfEach]
    exact List.forall_mem_append.mpr ⟨inset_blockLines (inset_of_flat label) inner, step others⟩

theorem inset_switchCase (flat : Unbroken name) {pattern : Pattern} (short : pattern.Unbroken)
    (inset : InsetBody dialect body) :
    Unbroken (switchCase name pattern body).label.text ∧ InsetBody dialect (switchCase name pattern body).body := by
  have quoted : ∀ {text glue : String}, Unbroken glue → Unbroken text → Unbroken ("case " ++ (glue ++ text ++ glue) ++ ":") :=
    fun glue text => (Unbroken.append (by decide) ((glue.append text).append glue)).append (by decide)
  cases pattern with
  | tag pattern => exact ⟨quoted (by decide) short, (inset_fieldBindings pattern name).append inset⟩
  | string text => exact ⟨quoted (by decide) short, inset⟩
  | formatString text => exact ⟨quoted (by decide) short, inset⟩
  | emptyList => exact ⟨(by decide : Unbroken "case 0:"), inset.guarded ((flat.append (by decide)).append (unbroken_toString 0))⟩
  | list parts => exact ⟨(Unbroken.append (by decide) flat).append (by decide), inset_listPattern flat short inset⟩
  | otherwise => exact ⟨(by decide : Unbroken "default:"), inset⟩

/-- **The statements of a case are inset** where those of its branches are. -/
theorem inset_caseStatements (flat : Unbroken name) (value : Term) {branches : List (Pattern × List Statement)}
    (each : ∀ branch ∈ branches, branch.1.Unbroken ∧ InsetBody dialect branch.2) :
    InsetBody dialect (caseStatements name value branches) := by
  have subject : ∀ patterns, Unbroken (subjectOf name patterns).text := by
    intro patterns
    unfold subjectOf
    split
    · exact flat
    · split <;> exact flat.append (by decide)
  refine InsetBody.cons (insetBody_cons.mpr ⟨?_, insetBody_nil⟩) rfl
  have head : ∀ patterns, Unbroken ("switch " ++ Text.parenthesised (subjectOf name patterns).text) :=
    fun patterns => Unbroken.append (by decide) (subject patterns).parenthesised
  refine inset_blockLines (inset_of_flat (head _)) (inset_cases ?_)
  exact List.forall_mem_map.mpr fun branch member => inset_switchCase flat (each branch member).1 (each branch member).2

end Cases

end Ecma

end DerwLang
