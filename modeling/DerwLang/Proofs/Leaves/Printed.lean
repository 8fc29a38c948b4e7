/-
**Printing what was read keeps its leaves.**

The text of an expression is read as the settled expression, which has the same outline. So the leaves of a source and those
of the text that is printed for it fill one outline. Main facts:

* `outline_settled`: what is read of a printed text has the outline of what was printed;
* `oneLine_of_fills`: where no quoted leaf goes over several lines and there is no `let`, the same is known of the tree;
* `alike_canonical`: the leaves of a source and of its printed text are the same, up to how patterns are written.
-/

import DerwLang.Proofs.Leaves.Expression
import DerwLang.Proofs.Reading.Module

namespace DerwLang.Leaves

open Layout

/-! ## Settled syntax -/

section

attribute [local simp] outline outlines Settled.join

theorem outline_joinInto (left right : Expression) :
    outline (Settled.joinInto left right) = outline left ++ .text "|>" :: outline right := by
  fun_induction Settled.joinInto left right with
  | case1 function argument right step => simp [step]
  | case2 => rfl

theorem outline_join (operator : BinaryOperator) (left right : Expression) :
    outline (Settled.join operator left right) = outline left ++ .text operator.symbol :: outline right := by
  cases operator with
  | pipeInto => exact outline_joinInto left right
  | _ => simp

theorem outlines_merge (items : List Expression) :
    (outlines (Settled.merge items)).flatten = (outlines items).flatten := by
  fun_induction Settled.merge items with
  | case1 => rfl
  | case2 tag literal rest isTag step => simp [step]
  | case3 tag literal rest notTag step => simp [step]
  | case4 item rest other step => simp [step]

end

theorem outlines_congr {f : Expression → Expression} {items : List Expression}
    (same : ∀ item ∈ items, outline (f item) = outline item) : outlines (items.map f) = outlines items := by
  rw [outlines_eq, outlines_eq, List.map_map]
  exact List.map_congr_left same

theorem recordOutline_settled {level : Nat} {base : Option String} {fields : List Field}
    (same : ∀ field ∈ fields, outline (Settled.expression level field.value) = outline field.value) :
    recordOutline (Settled.recordLiteral level ⟨base, fields⟩) = recordOutline ⟨base, fields⟩ := by
  have each : fieldOutlines (Settled.recordFields level fields) = fieldOutlines fields := by
    rw [Settled.recordFields_eq, fieldOutlines_eq, fieldOutlines_eq, List.map_map]
    exact List.map_congr_left fun field member => by simp [same field member]
  rw [Settled.recordLiteral, recordOutline, recordOutline, each]

/-- One step for each way to make an expression or a body. -/
theorem settled_steps :
    Steps
      (fun e => e.Everywhere Sound.checks → e.Everywhere OneLine.checks → ∀ level,
        outline (Settled.expression level e) = outline e)
      (fun b => b.Everywhere Sound.checks → b.Everywhere OneLine.checks → ∀ level,
        bodyOutline (Settled.body level b) = bodyOutline b)
      (fun _ => True) where
  value text _ _ level := rfl
  string text _ oneLine level := by rw [Settled.expression, Settled.quoted_of_flat oneLine.here]
  formatString text _ oneLine level := by rw [Settled.expression, Settled.backquoted_of_flat oneLine.here]
  list items step sound oneLine level := by
    rw [everywhere_list] at sound oneLine
    rw [Settled.expression, Settled.expressions_eq, outline, outline, outlines_congr]
    exact fun item member => step item member (sound.2 item member) (oneLine.2 item member) level
  range first last _ oneLine level := by
    rw [Settled.expression, Settled.moved_of_flat oneLine.here.1, Settled.moved_of_flat oneLine.here.2]
  record base fields step sound oneLine level := by
    rw [everywhere_record] at sound oneLine
    rw [Settled.expression, outline, outline, recordOutline_settled]
    exact fun field member => step field member (sound.2 field member) (oneLine.2 field member) level
  conditional predicate whenTrue whenFalse test yes no sound oneLine level := by
    rw [everywhere_conditional] at sound oneLine
    rw [Settled.expression, outline, outline, test sound.2.1 oneLine.2.1, yes sound.2.2.1 oneLine.2.2.1,
      no sound.2.2.2 oneLine.2.2.2]
  caseOf predicate branches test step sound oneLine level := by
    rw [everywhere_caseOf] at sound oneLine
    have same : branchOutlines (Settled.branches (level + 1) branches) = branchOutlines branches := by
      rw [Settled.branches_eq, branchOutlines_eq, branchOutlines_eq, List.map_map]
      refine List.map_congr_left fun branch member => ?_
      have inner := step branch member (sound.2.2 branch member).2 (oneLine.2.2 branch member).2 (level + 1 + 1)
      simp [Settled.pattern_of_oneLine (oneLine.2.2 branch member).1, inner]
    rw [Settled.expression, outline, outline, test sound.2.1 oneLine.2.1, same]
  binary operator left right one two sound oneLine level := by
    rw [everywhere_binary] at sound oneLine
    rw [Settled.expression, outline_join, outline, one sound.2.1 oneLine.2.1, two sound.2.2 oneLine.2.2]
  call name items step sound oneLine level := by
    rw [everywhere_call] at sound oneLine
    rw [Settled.expression, Settled.expressions_eq, outline, outline, outlines_merge, outlines_congr]
    exact fun item member => step item member (sound.2 item member) (oneLine.2 item member) level
  lambda parameters body step sound oneLine level := by
    rw [everywhere_lambda] at sound oneLine
    rw [Settled.expression, Settled.lambda, outline, outline, step sound.2 oneLine.2]
  lambdaCall parameters body items _ _ sound := absurd sound.here id
  construct tag base fields step sound oneLine level := by
    rw [everywhere_construct] at sound oneLine
    rw [Settled.expression, outline, outline, recordOutline_settled]
    exact fun field member => step field member (sound.2 field member) (oneLine.2 field member) level
  reference path value step _ sound oneLine level := by
    cases value with
    | value name => rfl
    | call name items =>
      rw [everywhere_reference_call] at sound oneLine
      rw [Settled.expression, Settled.expression, Settled.expressions_eq, outline, outline, outlines_merge, outlines_congr]
      exact fun item member => step name items rfl item member (sound.2 item member) (oneLine.2 item member) level
    | _ => exact absurd sound.here id
  body locals result _ step sound oneLine level := by
    rw [everywhere_body] at sound oneLine
    cases locals with
    | nil => exact step sound.2.2 oneLine.2.2 level
    | cons first rest => rfl
  function _ _ _ _ _ := trivial
  constant _ _ _ _ := trivial
  imports _ := trivial
  exports _ := trivial
  union _ := trivial
  typeAlias _ := trivial
  comment _ := trivial
  multilineComment _ := trivial

/-- **What is read of a printed text has the outline of what was printed**, where no literal goes over several lines. -/
theorem outline_settled {item : Expression} (sound : item.Everywhere Sound.checks)
    (oneLine : item.Everywhere OneLine.checks) (level : Nat) :
    outline (Settled.expression level item) = outline item :=
  settled_steps.expression item sound oneLine level

/-! ## Texts on one line -/

/-- No quoted leaf goes over several lines. -/
def Flat (row : List Lexeme) : Prop :=
  ∀ leaf ∈ row, leaf.kind = .string ∨ leaf.kind = .formatString → '\n' ∉ leaf.chars

instance (row : List Lexeme) : Decidable (Flat row) :=
  inferInstanceAs (Decidable (∀ leaf ∈ row, leaf.kind = .string ∨ leaf.kind = .formatString → '\n' ∉ leaf.chars))

/-- No range has a bound that goes over several lines. -/
def Bounds.checks : Checks where
  expression
    | .range first last => '\n' ∉ first.toList ∧ '\n' ∉ last.toList
    | _ => True

/-- A piece of which no quoted text goes over several lines, and that is no `let`. -/
def Slot.Plain : Slot → Prop
  | .text own => Flat (leaves own.toList)
  | .pattern shape => ∃ texts, Spells shape texts ∧ ∀ text ∈ texts, Flat (leaves text.toList)
  | .locals => False

/-- **The pieces of an outline are plain when the leaves are that fill it.** -/
theorem Fills.plain {slots : List Slot} {row : List Lexeme} (filled : Fills slots row) (flat : Flat row)
    (noLet : ∀ leaf ∈ row, leaf.kind ≠ .keyword .letWord) : ∀ slot ∈ slots, slot.Plain := by
  induction filled with
  | nil => simp
  | text own _ step =>
    rw [Flat, List.forall_mem_append] at flat
    rw [List.forall_mem_append] at noLet
    exact List.forall_mem_cons.mpr ⟨flat.1, step flat.2 noLet.2⟩
  | @pattern shape texts _ _ spells _ step =>
    rw [Flat, List.forall_mem_append] at flat
    rw [List.forall_mem_append] at noLet
    refine List.forall_mem_cons.mpr ⟨⟨texts, spells, fun text member leaf among => ?_⟩, step flat.2 noLet.2⟩
    exact flat.1 leaf (List.mem_flatMap.mpr ⟨text, member, among⟩)
  | locals own _ step =>
    rw [List.forall_mem_append] at noLet
    have isLet : IsWord (.keyword .letWord) "let".toList := by decide
    refine absurd rfl (noLet.1 ⟨.keyword .letWord, "let".toList⟩ ?_)
    rw [leaves_of_isWord isLet]
    exact List.mem_cons_self

theorem not_mem_of_quoted {text : String} (sound : Sound.Quoted text)
    (flat : Flat (leaves (Text.quoted text).toList)) : '\n' ∉ text.toList := by
  have isWord : IsWord .string (Text.quoted text).toList := sound
  rw [leaves_of_isWord isWord] at flat
  have whole := flat _ List.mem_cons_self (.inl rfl)
  intro member
  exact whole (by simp [Text.quoted, member])

theorem not_mem_of_backquoted {text : String} (sound : Sound.Backquoted text)
    (flat : Flat (leaves (Text.backquoted text).toList)) : '\n' ∉ text.toList := by
  have isWord : IsWord .formatString (Text.backquoted text).toList := sound
  rw [leaves_of_isWord isWord] at flat
  have whole := flat _ List.mem_cons_self (.inr rfl)
  intro member
  exact whole (by simp [Text.backquoted, member])

/-- Every part of a list pattern is spelled within the whole. -/
theorem spells_part {parts : List ListPart} {rows : List (List String)} (each : List.Forall₂ SpellsPart parts rows) :
    ∀ part ∈ parts, ∃ texts, SpellsPart part texts ∧ ∀ text ∈ texts, text ∈ List.intercalate ["::"] rows := by
  induction each with
  | nil => simp
  | @cons part texts parts rows first _ step =>
    rw [List.forall_mem_cons]
    have within (text : String) (member : text ∈ List.intercalate ["::"] rows) :
        text ∈ List.intercalate ["::"] (texts :: rows) := by
      cases rows with
      | nil => simp at member
      | cons next more =>
        rw [List.intercalate_cons_cons]
        exact List.mem_append_right _ member
    refine ⟨⟨texts, first, fun text member => ?_⟩, fun part member => ?_⟩
    · rw [intercalate_cons]
      exact List.mem_append_left _ member
    · obtain ⟨own, spells, all⟩ := step part member
      exact ⟨own, spells, fun text among => within text (all text among)⟩

theorem oneLine_of_spells {shape : Pattern} {texts : List String} (sound : Sound.Pattern shape)
    (spells : Spells shape texts) (flat : ∀ text ∈ texts, Flat (leaves text.toList)) :
    OneLine.checks.pattern shape := by
  cases spells with
  | string text => exact not_mem_of_quoted sound (flat _ List.mem_cons_self)
  | formatString text => exact not_mem_of_backquoted sound (flat _ List.mem_cons_self)
  | list each =>
    rintro text (member | member)
    · obtain ⟨_, spells, all⟩ := spells_part each _ member
      cases spells
      exact not_mem_of_quoted (sound.2.1 _ member) (flat _ (all _ List.mem_cons_self))
    · obtain ⟨_, spells, all⟩ := spells_part each _ member
      cases spells
      exact not_mem_of_backquoted (sound.2.1 _ member) (flat _ (all _ List.mem_cons_self))
  | _ => trivial

theorem mem_commas {pieces : List (List Slot)} {piece : List Slot} (member : piece ∈ pieces) :
    ∀ slot ∈ piece, slot ∈ commas pieces := by
  intro slot among
  induction pieces with
  | nil => simp at member
  | cons first rest step =>
    rw [commas, intercalate_cons]
    rcases List.mem_cons.mp member with rfl | later
    · exact List.mem_append_left _ among
    · exact List.mem_append_right _ (List.mem_flatMap.mpr ⟨piece, later, List.mem_append_right _ among⟩)

theorem plain_of_record {base : Option String} {fields : List Field}
    (plain : ∀ slot ∈ recordOutline ⟨base, fields⟩, slot.Plain) :
    ∀ field ∈ fields, ∀ slot ∈ outline field.value, slot.Plain := by
  intro field member slot among
  have piece : .text field.name :: .text ":" :: outline field.value ∈ fieldOutlines fields := by
    rw [fieldOutlines_eq]
    exact List.mem_map_of_mem member
  have within := mem_commas (List.mem_append_right (base.toList.map fun name => [.text name]) piece) slot
    (List.mem_cons_of_mem _ (List.mem_cons_of_mem _ among))
  exact plain slot (List.mem_cons_of_mem _ (List.mem_append_left _ within))

theorem plain_of_arguments {items : List Expression} (plain : ∀ slot ∈ (outlines items).flatten, slot.Plain) :
    ∀ item ∈ items, ∀ slot ∈ outline item, slot.Plain := by
  intro item member slot among
  rw [outlines_eq] at plain
  exact plain slot (List.mem_flatten.mpr ⟨_, List.mem_map_of_mem member, among⟩)

/-- One step for each way to make an expression or a body. -/
theorem oneLine_steps :
    Steps
      (fun e => e.Everywhere Sound.checks → e.Everywhere Bounds.checks → (∀ slot ∈ outline e, slot.Plain) →
        e.Everywhere OneLine.checks)
      (fun b => b.Everywhere Sound.checks → b.Everywhere Bounds.checks → (∀ slot ∈ bodyOutline b, slot.Plain) →
        b.Everywhere OneLine.checks)
      (fun _ => True) where
  value text _ _ _ := ⟨trivial, trivial⟩
  string text sound _ plain := ⟨not_mem_of_quoted sound.here (plain _ List.mem_cons_self), trivial⟩
  formatString text sound _ plain := ⟨not_mem_of_backquoted sound.here (plain _ List.mem_cons_self), trivial⟩
  list items step sound bounds plain := by
    rw [everywhere_list] at sound bounds ⊢
    refine ⟨trivial, fun item member => step item member (sound.2 item member) (bounds.2 item member) ?_⟩
    intro slot among
    rw [outline, outlines_eq] at plain
    exact plain slot (List.mem_cons_of_mem _ (List.mem_append_left _ (mem_commas (List.mem_map_of_mem member) slot among)))
  range first last _ bounds _ := ⟨bounds.here, trivial⟩
  record base fields step sound bounds plain := by
    rw [everywhere_record] at sound bounds ⊢
    have each := plain_of_record plain
    exact ⟨trivial, fun field member => step field member (sound.2 field member) (bounds.2 field member) (each field member)⟩
  conditional predicate whenTrue whenFalse test yes no sound bounds plain := by
    rw [everywhere_conditional] at sound bounds ⊢
    simp only [outline, List.forall_mem_cons, List.forall_mem_append] at plain
    obtain ⟨-, one, -, two, -, three⟩ := plain
    exact ⟨trivial, test sound.2.1 bounds.2.1 one, yes sound.2.2.1 bounds.2.2.1 two, no sound.2.2.2 bounds.2.2.2 three⟩
  caseOf predicate branches test step sound bounds plain := by
    rw [everywhere_caseOf] at sound bounds ⊢
    simp only [outline, List.forall_mem_cons, List.forall_mem_append, branchOutlines_eq] at plain
    obtain ⟨-, one, -, cases_⟩ := plain
    refine ⟨trivial, test sound.2.1 bounds.2.1 one, fun branch member => ?_⟩
    have own : ∀ slot ∈ Slot.pattern branch.pattern :: .text "->" :: bodyOutline branch.body, slot.Plain :=
      fun slot among => cases_ slot (List.mem_flatten.mpr ⟨_, List.mem_map_of_mem member, among⟩)
    simp only [List.forall_mem_cons] at own
    obtain ⟨⟨texts, spells, flat⟩, -, inner⟩ := own
    exact ⟨oneLine_of_spells (sound.2.2 branch member).1 spells flat,
      step branch member (sound.2.2 branch member).2 (bounds.2.2 branch member).2 inner⟩
  binary operator left right one two sound bounds plain := by
    rw [everywhere_binary] at sound bounds ⊢
    simp only [outline, List.forall_mem_append, List.forall_mem_cons] at plain
    exact ⟨trivial, one sound.2.1 bounds.2.1 plain.1, two sound.2.2 bounds.2.2 plain.2.2⟩
  call name items step sound bounds plain := by
    rw [everywhere_call] at sound bounds ⊢
    have each := plain_of_arguments (List.forall_mem_cons.mp plain).2
    exact ⟨trivial, fun item member => step item member (sound.2 item member) (bounds.2 item member) (each item member)⟩
  lambda parameters body step sound bounds plain := by
    rw [everywhere_lambda] at sound bounds ⊢
    simp only [outline, List.forall_mem_append, List.forall_mem_cons] at plain
    exact ⟨trivial, step sound.2 bounds.2 plain.2.2.2⟩
  lambdaCall parameters body items _ _ sound := absurd sound.here id
  construct tag base fields step sound bounds plain := by
    rw [everywhere_construct] at sound bounds ⊢
    have each := plain_of_record (List.forall_mem_cons.mp plain).2
    exact ⟨trivial, fun field member => step field member (sound.2 field member) (bounds.2 field member) (each field member)⟩
  reference path value step _ sound bounds plain := by
    cases value with
    | value name => exact ⟨trivial, trivial⟩
    | call name items =>
      rw [everywhere_reference_call] at sound bounds ⊢
      have each := plain_of_arguments (List.forall_mem_cons.mp plain).2
      exact ⟨trivial, fun item member =>
        step name items rfl item member (sound.2 item member) (bounds.2 item member) (each item member)⟩
    | _ => exact absurd sound.here id
  body locals result _ step sound bounds plain := by
    rw [everywhere_body] at sound bounds ⊢
    cases locals with
    | nil => exact ⟨trivial, fun _ member => absurd member List.not_mem_nil, step sound.2.2 bounds.2.2 plain⟩
    | cons first rest => exact absurd (plain .locals List.mem_cons_self) id
  function _ _ _ _ _ := trivial
  constant _ _ _ _ := trivial
  imports _ := trivial
  exports _ := trivial
  union _ := trivial
  typeAlias _ := trivial
  comment _ := trivial
  multilineComment _ := trivial

/-! ## What is printed -/

/-- **Reading and printing lose, double and reorder nothing.** Where a source holds no `let`, no quoted text over several lines
and no range bound over several lines, its leaves are those of the text that is printed for it, but for how patterns are
written. -/
theorem alike_canonical {source : String} {item : Expression} (read : parseExpression source = .ok item)
    (noLet : ∀ leaf ∈ leaves source.toList, leaf.kind ≠ .keyword .letWord) (flat : Flat (leaves source.toList))
    (bounds : item.Everywhere Bounds.checks) :
    Alike (patterns item) (leaves source.toList) (leaves (Canonical.expression item).toList) := by
  have sound := sound_parseExpression read
  have filled := fills_parseExpression read
  have plain := filled.plain flat noLet
  have oneLine := oneLine_steps.expression item sound bounds plain
  have printed := fills_parseExpression (Written.parseExpression_text sound)
  rw [outline_settled sound oneLine] at printed
  refine filled.alike printed fun slot member isLocals => ?_
  have never := plain slot member
  rw [isLocals] at never
  exact never

section Examples

-- these two recur on the number of tokens left, and the sources below are read by running them
attribute [local semireducible] Grammar.arguments Grammar.links

/-- A case with a bare tag, a comma after the last field, a range, a list and round brackets. -/
def looseText : String :=
  "case (f [ 1..n ]) of\n A -> [ \"c\", (x) ]\n B \x7b x, \x7d -> (x) |> g - 1"

/-- What the case is read as. -/
def looseTree : Expression :=
  .caseOf (.call "f" [.range "1" "n"])
    [⟨.tag ⟨"A", []⟩, ⟨[], .list [.string "c", .value "x"]⟩⟩,
      ⟨.tag ⟨"B", ["x"]⟩, ⟨[], .binary .subtract (.binary .pipeInto (.value "x") (.value "g")) (.value "1")⟩⟩]

theorem parseExpression_looseText : parseExpression looseText = .ok looseTree := by
  rfl

/-- The tags of the case get their brackets, its field loses the comma, and all else stays. -/
theorem alike_canonical_loose :
    parseExpression looseText = .ok looseTree ∧ (∀ leaf ∈ leaves looseText.toList, leaf.kind ≠ .keyword .letWord) ∧
      Flat (leaves looseText.toList) ∧ looseTree.Everywhere Bounds.checks ∧
      Alike [.tag ⟨"A", []⟩, .tag ⟨"B", ["x"]⟩] (leaves looseText.toList)
        (leaves ("case f [ 1..n ] of\n    A \x7b\x7d ->\n        [ \"c\", x ]\n\n    B \x7b x \x7d ->\n" ++
          "        x |> g - 1").toList) := by
  have noLet : ∀ leaf ∈ leaves looseText.toList, leaf.kind ≠ .keyword .letWord := by decide +kernel
  have flat : Flat (leaves looseText.toList) := by decide +kernel
  have bounds : looseTree.Everywhere Bounds.checks := by
    simp [looseTree, Expression.Everywhere, Expression.Inside, Bounds.checks, Branch.EverywhereEach,
      Expression.EverywhereEach, Body.Everywhere, Block.EverywhereEach]
  have alike := alike_canonical parseExpression_looseText noLet flat bounds
  have text : Canonical.expression looseTree = "case f [ 1..n ] of\n    A \x7b\x7d ->\n        [ \"c\", x ]\n\n" ++
      "    B \x7b x \x7d ->\n        x |> g - 1" := by
    decide
  rw [text] at alike
  exact ⟨parseExpression_looseText, noLet, flat, bounds, alike⟩

/-- A conditional with a range that starts with a list, in which a comment is opened and not closed. -/
def openedText : String :=
  "if a then [ [ \x7b- x\ny ]..3 ] else b"

/-- What the conditional is read as. -/
def openedTree : Expression :=
  .conditional (.value "a") ⟨[], .range "[ \x7b- x\ny ]" "3"⟩ ⟨[], .value "b"⟩

theorem parseExpression_openedText : parseExpression openedText = .ok openedTree := by
  rfl

/-- **A range bound of two lines moves in with the branch around it**, and text in it that no rule takes is printed with more
blanks than it was read with. -/
theorem openedText_moves :
    parseExpression openedText = .ok openedTree ∧ (∀ leaf ∈ leaves openedText.toList, leaf.kind ≠ .keyword .letWord) ∧
      Flat (leaves openedText.toList) ∧
      ¬ Alike (patterns openedTree) (leaves openedText.toList) (leaves (Canonical.expression openedTree).toList) := by
  refine ⟨parseExpression_openedText, by decide +kernel, by decide +kernel, fun alike => ?_⟩
  have same := alike.eq_of_nil
  revert same
  decide +kernel

end Examples

end DerwLang.Leaves
