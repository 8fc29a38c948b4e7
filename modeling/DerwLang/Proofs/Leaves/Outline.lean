/-
**What an expression is written with.**

The outline of an expression is the row of texts that it is written with, in order and without round brackets. Only patterns
can be written in more than one way: a tag without fields stands alone or before empty brackets, and a comma may follow the
last field (`Spells`). Local definitions are left open. Main facts:

* `Fills.append`, `Fills.intercalate`: rows of leaves fill outlines piece by piece;
* `Fills.alike`: two rows that fill an outline without local definitions are alike, up to how its patterns are written.
-/

import DerwLang.Proofs.Leaves.Text
import DerwLang.Proofs.Layout.Written

namespace DerwLang.Leaves

/-! ## Patterns -/

/-- The names of fields with commas between, and perhaps one after the last. -/
inductive SpellsFields : List String → List String → Prop
  | none : SpellsFields [] []
  | last (name : String) : SpellsFields [name] [name]
  | more (name : String) {names texts : List String} (rest : SpellsFields names texts) :
      SpellsFields (name :: names) (name :: "," :: texts)

/-- A tag with its fields in brackets; without fields it may stand alone. -/
inductive SpellsTag : TagPattern → List String → Prop
  | bare (tag : String) : SpellsTag ⟨tag, []⟩ [tag]
  | braced (tag : String) {names texts : List String} (fields : SpellsFields names texts) :
      SpellsTag ⟨tag, names⟩ (tag :: "\x7b" :: (texts ++ ["\x7d"]))

/-- One part of a list pattern. -/
inductive SpellsPart : ListPart → List String → Prop
  | emptyList : SpellsPart .emptyList ["[", "]"]
  | string (text : String) : SpellsPart (.string text) [Text.quoted text]
  | formatString (text : String) : SpellsPart (.formatString text) [Text.backquoted text]
  | name (name : String) : SpellsPart (.name name) [name]
  | tag {shape : TagPattern} {texts : List String} (spells : SpellsTag shape texts) : SpellsPart (.tag shape) texts

/-- **The texts that a pattern is written with.** -/
inductive Spells : Pattern → List String → Prop
  | tag {shape : TagPattern} {texts : List String} (spells : SpellsTag shape texts) : Spells (.tag shape) texts
  | string (text : String) : Spells (.string text) [Text.quoted text]
  | formatString (text : String) : Spells (.formatString text) [Text.backquoted text]
  | emptyList : Spells .emptyList ["[", "]"]
  | otherwise : Spells .otherwise ["default"]
  | list {parts : List ListPart} {rows : List (List String)} (each : List.Forall₂ SpellsPart parts rows) :
      Spells (.list parts) (List.intercalate ["::"] rows)

/-- The leaves of texts, one after the other. -/
def leavesOfTexts (texts : List String) : List Lexeme :=
  texts.flatMap fun text => leaves text.toList

/-! ## Outlines -/

/-- One piece of an outline. -/
inductive Slot
  | text (own : String)
  /-- a pattern, in any way that it can be written -/
  | pattern (shape : Pattern)
  /-- a `let`, whatever it holds -/
  | locals

/-- The pattern that a piece stands for. -/
def Slot.pattern? : Slot → Option Pattern
  | .pattern shape => some shape
  | .text _ | .locals => none

/-- Pieces with commas between. -/
def commas (pieces : List (List Slot)) : List Slot :=
  List.intercalate [.text ","] pieces

mutual

/-- **The outline of an expression.** -/
def outline : Expression → List Slot
  | .value text => [.text text]
  | .string text => [.text (Text.quoted text)]
  | .formatString text => [.text (Text.backquoted text)]
  | .list items => .text "[" :: (commas (outlines items) ++ [.text "]"])
  | .range first last => [.text "[", .text first, .text "..", .text last, .text "]"]
  | .record literal => recordOutline literal
  | .conditional predicate whenTrue whenFalse =>
    .text "if" :: (outline predicate ++
      .text "then" :: (bodyOutline whenTrue ++ .text "else" :: bodyOutline whenFalse))
  | .caseOf predicate cases => .text "case" :: (outline predicate ++ .text "of" :: (branchOutlines cases).flatten)
  | .binary operator left right => outline left ++ .text operator.symbol :: outline right
  | .call name arguments => .text name :: (outlines arguments).flatten
  | .lambda ⟨parameters, body⟩ => .text "\\" :: (parameters.map Slot.text ++ .text "->" :: outline body)
  | .lambdaCall _ _ => []
  | .construct tag literal => .text tag :: recordOutline literal
  | .reference path (.value name) => [.text (Written.whole path name)]
  | .reference path (.call name arguments) => .text (Written.whole path name) :: (outlines arguments).flatten
  | .reference _ _ => []

/-- The outlines of expressions. -/
def outlines : List Expression → List (List Slot)
  | [] => []
  | item :: rest => outline item :: outlines rest

/-- The outline of a record literal. -/
def recordOutline : RecordLiteral → List Slot
  | ⟨base, fields⟩ =>
    .text "\x7b" :: (commas (base.toList.map (fun name => [.text name]) ++ fieldOutlines fields) ++ [.text "\x7d"])

/-- The outlines of the fields of a record literal. -/
def fieldOutlines : List Field → List (List Slot)
  | [] => []
  | ⟨name, value⟩ :: rest => (.text name :: .text ":" :: outline value) :: fieldOutlines rest

/-- The outlines of the branches of a case. -/
def branchOutlines : List Branch → List (List Slot)
  | [] => []
  | ⟨shape, body⟩ :: rest => (.pattern shape :: .text "->" :: bodyOutline body) :: branchOutlines rest

/-- The outline of a body; local definitions are left open. -/
def bodyOutline : Body → List Slot
  | ⟨[], result⟩ => outline result
  | ⟨_ :: _, _⟩ => [.locals]

end

/-- The patterns of an expression, in order. -/
def patterns (expression : Expression) : List Pattern :=
  (outline expression).filterMap Slot.pattern?

theorem outlines_eq (items : List Expression) : outlines items = items.map outline := by
  induction items <;> simp_all [outlines]

theorem fieldOutlines_eq (fields : List Field) :
    fieldOutlines fields = fields.map fun field => .text field.name :: .text ":" :: outline field.value := by
  induction fields with
  | nil => rfl
  | cons field rest step =>
    cases field
    simp [fieldOutlines, step]

theorem branchOutlines_eq (cases : List Branch) :
    branchOutlines cases = cases.map fun branch =>
      .pattern branch.pattern :: .text "->" :: bodyOutline branch.body := by
  induction cases with
  | nil => rfl
  | cons branch rest step =>
    cases branch
    simp [branchOutlines, step]

/-! ## Filling outlines -/

/-- **The row of leaves is one that the outline stands for.** -/
inductive Fills : List Slot → List Lexeme → Prop
  | nil : Fills [] []
  | text (own : String) {slots : List Slot} {row : List Lexeme} (rest : Fills slots row) :
      Fills (.text own :: slots) (leaves own.toList ++ row)
  | pattern {shape : Pattern} {texts : List String} {slots : List Slot} {row : List Lexeme} (spells : Spells shape texts)
      (rest : Fills slots row) : Fills (.pattern shape :: slots) (leavesOfTexts texts ++ row)
  | locals (own : List Lexeme) {slots : List Slot} {row : List Lexeme} (rest : Fills slots row) :
      Fills (.locals :: slots) (leaves "let".toList ++ (own ++ row))

namespace Fills

/-- Rows fill outlines one after the other. -/
theorem append {first second : List Slot} {front back : List Lexeme} (one : Fills first front)
    (two : Fills second back) : Fills (first ++ second) (front ++ back) := by
  induction one with
  | nil => exact two
  | text own _ step =>
    rw [List.append_assoc]
    exact .text own step
  | pattern spells _ step =>
    rw [List.append_assoc]
    exact .pattern spells step
  | locals own _ step =>
    rw [List.append_assoc, List.append_assoc]
    exact .locals own step

/-- A single text fills its own piece. -/
theorem single (own : String) : Fills [.text own] (leaves own.toList) := by
  have filled := Fills.text own .nil
  rwa [List.append_nil] at filled

/-- What stands between two texts. -/
theorem between (opening closing : String) {slots : List Slot} {row : List Lexeme} (inner : Fills slots row) :
    Fills (.text opening :: (slots ++ [.text closing])) (leaves opening.toList ++ (row ++ leaves closing.toList)) :=
  .text opening (inner.append (single closing))

theorem texts (own : List String) : Fills (own.map Slot.text) (leavesOfTexts own) := by
  induction own with
  | nil => exact .nil
  | cons first _ step => exact .text first step

theorem flatten {pieces : List (List Slot)} {rows : List (List Lexeme)} (each : List.Forall₂ Fills pieces rows) :
    Fills pieces.flatten rows.flatten := by
  induction each with
  | nil => exact .nil
  | cons first _ step => exact first.append step

/-- Rows with the leaves of a text between fill outlines with this text between. -/
theorem intercalate (separator : String) {pieces : List (List Slot)} {rows : List (List Lexeme)}
    (each : List.Forall₂ Fills pieces rows) :
    Fills (List.intercalate [.text separator] pieces) (List.intercalate (leaves separator.toList) rows) := by
  induction each with
  | nil => exact .nil
  | cons first later step =>
    cases later with
    | nil => simpa [List.intercalate] using first
    | cons second more =>
      rw [List.intercalate_cons_cons, List.intercalate_cons_cons]
      exact (first.append (single separator)).append step

end Fills

/-! ## Rows that are alike -/

/-- **The rows are the same but for how the patterns are written**, which stand in the rows in the given order. -/
inductive Alike : List Pattern → List Lexeme → List Lexeme → Prop
  | nil : Alike [] [] []
  | same (leaf : Lexeme) {shapes : List Pattern} {first second : List Lexeme} (rest : Alike shapes first second) :
      Alike shapes (leaf :: first) (leaf :: second)
  | pattern {shape : Pattern} {texts others : List String} {shapes : List Pattern} {first second : List Lexeme}
      (spells : Spells shape texts) (spellsToo : Spells shape others) (rest : Alike shapes first second) :
      Alike (shape :: shapes) (leavesOfTexts texts ++ first) (leavesOfTexts others ++ second)

theorem Alike.append (own : List Lexeme) {shapes : List Pattern} {first second : List Lexeme}
    (alike : Alike shapes first second) : Alike shapes (own ++ first) (own ++ second) := by
  induction own with
  | nil => exact alike
  | cons leaf _ step => exact step.same leaf

/-- Without patterns only rows that are the same are alike. -/
theorem Alike.eq_of_nil {first second : List Lexeme} (alike : Alike [] first second) : first = second := by
  generalize none_ : ([] : List Pattern) = shapes at alike
  induction alike with
  | nil => rfl
  | same leaf _ step => rw [step none_]
  | pattern => cases none_

/-- **Two rows that fill one outline are alike**, where nothing is left open. -/
theorem Fills.alike {slots : List Slot} {first second : List Lexeme} (one : Fills slots first)
    (two : Fills slots second) (closed : ∀ slot ∈ slots, slot ≠ .locals) :
    Alike (slots.filterMap Slot.pattern?) first second := by
  induction one generalizing second with
  | nil =>
    cases two
    exact .nil
  | text own _ step =>
    cases two with
    | text _ rest => exact (step rest (List.forall_mem_cons.mp closed).2).append _
  | pattern spells _ step =>
    cases two with
    | pattern spellsToo rest => exact .pattern spells spellsToo (step rest (List.forall_mem_cons.mp closed).2)
  | locals => exact absurd rfl (List.forall_mem_cons.mp closed).1

end DerwLang.Leaves
