/-
**What is read has all its words.**

A window that is read as an expression or as a body is read whole, and each conditional, case and `let` in it has its own
words. So it is complete: the search for a reserved word passes over it. A reader that leaves tokens takes complete ones off
the front (`Consumes`). Main facts:

* `wordless_signature`: no word of a construct stands in an annotation;
* `consumes_operand`, `complete_chain`, `complete_body`: what is read is complete if what is nested is;
* `completes_at`: what is read is complete, however deep it nests.
-/

import DerwLang.Proofs.Accepted.Pattern
import DerwLang.Proofs.Lines.Type
import DerwLang.Proofs.Reading.Segment
import DerwLang.Proofs.Rules.Expression

namespace DerwLang

open Grammar

/-! ## Tokens without words of constructs -/

/-- None of the tokens is a word of a construct. -/
def Wordless (tokens : List Token) : Prop :=
  ∀ token ∈ tokens, isConstructWord token.kind = false

theorem Wordless.complete {tokens : List Token} (wordless : Wordless tokens) : Complete tokens := by
  induction tokens with
  | nil => exact .nil
  | cons token rest step =>
    obtain ⟨first, later⟩ := List.forall_mem_cons.mp wordless
    exact .cons first (step later)

/-- No word of a construct stands in a pattern. -/
theorem wordless_pattern {window : Window} {shape : Pattern} (read : pattern window = .ok shape) :
    Wordless window.tokens := by
  intro token member
  have known := kinds_pattern read token member
  revert known
  cases token.kind with
  | keyword word => cases word <;> first | exact fun _ => rfl | exact fun known => absurd known (by decide)
  | _ => exact fun _ => rfl

/-! ## Annotations -/

namespace TypeSegment

theorem wordless_of_splitFrom {depth : Nat} {tokens : List Token} (each : ∀ part ∈ splitFrom depth tokens, Wordless part) :
    Wordless tokens := by
  induction tokens generalizing depth with
  | nil => simp [Wordless]
  | cons token rest step =>
    by_cases cuts : token.kind = .arrow ∧ depth = 0
    · obtain ⟨isArrow, rfl⟩ := cuts
      rw [splitFrom_arrow isArrow, List.forall_mem_cons] at each
      exact List.forall_mem_cons.mpr ⟨by rw [isArrow]; rfl, step each.2⟩
    · obtain ⟨first, more, parts⟩ := exists_splitFrom (Indexed.depthAfter token depth) rest
      rw [splitFrom_stays (fun isArrow none_ => cuts ⟨isArrow, none_⟩), parts, List.modifyHead_cons,
        List.forall_mem_cons] at each
      obtain ⟨own, later⟩ := List.forall_mem_cons.mp each.1
      refine List.forall_mem_cons.mpr ⟨own, @step (Indexed.depthAfter token depth) ?_⟩
      rw [parts]
      exact List.forall_mem_cons.mpr ⟨later, each.2⟩

theorem wordless_of_classify {part : List Token} (own : Wordless (classify part).tokens) : Wordless part := by
  have around : ∀ {part inner : List Token}, withoutBrackets part = some inner → Wordless inner → Wordless part := by
    intro part inner found own
    obtain ⟨opening, closing, rfl, opens, closes, -⟩ := withoutBrackets_eq_some_iff.mp found
    refine List.forall_mem_cons.mpr ⟨by rw [opens]; rfl, List.forall_mem_append.mpr ⟨own, ?_⟩⟩
    exact List.forall_mem_singleton.mpr (by rw [closes]; rfl)
  fun_induction classify part with
  | case1 => exact own
  | case2 part inner found several => exact around found own
  | case3 part inner found single step => exact around found (step own)

theorem wordless_of_split {tokens : List Token}
    (each : ∀ part ∈ split (Token.significant tokens), Wordless (classify part).tokens) :
    Wordless tokens := by
  have seen : Wordless (Token.significant tokens) :=
    wordless_of_splitFrom fun part member => wordless_of_classify (each part member)
  intro token member
  cases trivia : token.isTrivia with
  | true =>
    unfold Token.isTrivia at trivia
    revert trivia
    cases token.kind <;> first | exact fun _ => rfl | exact fun trivia => absurd trivia Bool.false_ne_true
  | false => exact seen token (List.mem_filter.mpr ⟨member, by simp [trivia]⟩)

end TypeSegment

/-- The annotations that are read hold no word of a construct. -/
def ReadsWordless (read : List Token → Parsed (List Ty)) : Prop :=
  ∀ {tokens types}, read tokens = .ok types → Wordless tokens

theorem wordless_typeArguments {nested : List Token → Parsed (List Ty)} (reads : ReadsWordless nested) {tokens : List Token}
    {types : List Ty} (rule : TypeArgumentsRule nested tokens types) : Wordless tokens := by
  induction rule with
  | nil => simp [Wordless]
  | name isName _ step => exact List.forall_mem_cons.mpr ⟨by rw [isName]; rfl, step⟩
  | brackets opens cuts inner _ step =>
    rw [← cuts.whole, Cut.all]
    refine List.forall_mem_cons.mpr ⟨by rw [opens]; rfl, List.forall_mem_append.mpr ⟨reads inner, ?_⟩⟩
    exact List.forall_mem_cons.mpr ⟨by rw [cuts.kind]; rfl, step⟩

theorem wordless_namedType {nested : List Token → Parsed (List Ty)} (reads : ReadsWordless nested) {tokens : List Token}
    {type : Ty} (rule : NamedTypeRule nested tokens type) : Wordless tokens := by
  cases rule with
  | plain isName arguments | applied isName arguments =>
    exact List.forall_mem_cons.mpr ⟨by rw [isName]; rfl, wordless_typeArguments reads arguments⟩

theorem wordless_segmentType {nested : List Token → Parsed (List Ty)} (reads : ReadsWordless nested) {line : Nat}
    {segment : TypeSegment} {type : Ty} (read : segmentType nested line segment = .ok type) : Wordless segment.tokens := by
  cases segment with
  | plain tokens => exact wordless_namedType reads (namedType_rule read)
  | function tokens =>
    obtain ⟨types, found, -⟩ := ok_of_map read
    exact reads found

theorem wordless_signatureAt (depth : Nat) : ReadsWordless (signatureAt depth) := by
  induction depth with
  | zero => exact fun read => by cases read
  | succ depth step =>
    intro tokens types read
    have each := exists_right_of_forall₂ (forall₂_of_mapM (segments_of_signatureStep read))
    refine TypeSegment.wordless_of_split fun part member => ?_
    obtain ⟨type, own⟩ := each _ (List.mem_map_of_mem member)
    exact wordless_segmentType step own

/-- **No word of a construct stands in an annotation.** -/
theorem wordless_signature {tokens : List Token} {types : List Ty} (read : signature tokens = .ok types) : Wordless tokens :=
  wordless_signatureAt _ read

/-! ## Windows -/

/-- Tokens are complete when the windows that they are separated into are. -/
theorem Complete.of_separated {separator : Token.Kind} (other : isConstructWord separator = false) {tokens : List Token}
    {windows : List Window} (separated : Separated separator tokens windows)
    (each : ∀ window ∈ windows, Complete window.tokens) : Complete tokens := by
  induction separated with
  | single => exact each _ (List.mem_singleton_self _)
  | cut _ isSeparator _ step =>
    rw [List.forall_mem_cons] at each
    exact each.1.append (.cons (by rw [isSeparator]; exact other) (step each.2))

theorem Complete.flatMap {windows : List Window} (each : ∀ window ∈ windows, Complete window.tokens) :
    Complete (windows.flatMap Window.tokens) := by
  induction windows with
  | nil => exact .nil
  | cons window more step =>
    rw [List.forall_mem_cons] at each
    exact each.1.append (step each.2)

/-- What is taken off the front of the tokens is complete. -/
def Consumes (tokens rest : List Token) : Prop :=
  ∃ own, tokens = own ++ rest ∧ Complete own

namespace Consumes

variable {tokens middle rest : List Token}

theorem refl (tokens : List Token) : Consumes tokens tokens :=
  ⟨[], rfl, .nil⟩

theorem trans (one : Consumes tokens middle) (two : Consumes middle rest) : Consumes tokens rest := by
  obtain ⟨first, rfl, complete⟩ := one
  obtain ⟨second, rfl, further⟩ := two
  exact ⟨first ++ second, (List.append_assoc _ _ _).symm, complete.append further⟩

theorem cons {token : Token} (other : isConstructWord token.kind = false) (more : Consumes tokens rest) :
    Consumes (token :: tokens) rest :=
  trans ⟨[token], rfl, .token other⟩ more

theorem cut {kind : Token.Kind} {cut : Cut} (cuts : CutsAt kind tokens cut) (other : isConstructWord kind = false)
    (inside : Complete cut.inside) : Consumes tokens cut.after := by
  rw [← cuts.whole]
  exact trans ⟨cut.inside, rfl, inside⟩ (.cons (by rw [cuts.kind]; exact other) (.refl _))

theorem all (complete : Complete tokens) : Consumes tokens [] :=
  ⟨tokens, (List.append_nil _).symm, complete⟩

/-- Tokens are complete when those left of them are. -/
theorem complete (consumes : Consumes tokens rest) (left : Complete rest) : Complete tokens := by
  obtain ⟨own, rfl, complete⟩ := consumes
  exact complete.append left

theorem suffix (consumes : Consumes tokens rest) : rest <:+ tokens := by
  obtain ⟨own, rfl, -⟩ := consumes
  exact List.suffix_append _ _

end Consumes

/-- Names are complete. -/
theorem consumes_names {tokens own rest : List Token} (whole : tokens = own ++ rest)
    (areNames : ∀ token ∈ own, token.kind = .identifier) : Consumes tokens rest :=
  ⟨own, whole, Wordless.complete fun token member => by rw [areNames token member]; rfl⟩

theorem consumes_takeNames (window : Window) : Consumes window.tokens window.takeNames.2.tokens := by
  obtain ⟨own, whole, -, areNames⟩ := tokens_of_takeNames window
  exact consumes_names whole areNames

theorem consumes_expect {window ending : Window} {kind : Token.Kind} {place : Requirement} {token : Token}
    (read : window.expect kind place = .ok (token, ending)) (other : isConstructWord kind = false) :
    Consumes window.tokens ending.tokens := by
  obtain ⟨tokens, same⟩ := tokens_of_expect read
  rw [tokens]
  exact .cons (by rw [same]; exact other) (.refl _)

/-! ## Expressions -/

/-- What the nested readers read is complete. -/
structure Completes (nested : Nested) : Prop where
  expression : ∀ {window : Window} {value : Expression}, nested.expression window = .ok value → Complete window.tokens
  body : ∀ {window : Window} {value : Body}, nested.body window = .ok value → Complete window.tokens

section Nested

variable {nested : Nested} (completes : Completes nested)

include completes

theorem complete_recordField {window : Window} {field : Field} (rule : RecordFieldRule nested window field) :
    Complete window.tokens := by
  obtain ⟨tokens, isName, isColon, found⟩ := rule
  rw [tokens]
  exact .cons (by rw [isName]; rfl) (.cons (by rw [isColon]; rfl) (completes.expression found))

theorem complete_recordFields {windows : List Window} {literal : RecordLiteral}
    (rule : RecordFieldsRule nested windows literal) : ∀ window ∈ windows, Complete window.tokens := by
  have fields_ : ∀ {windows : List Window} {fields : List Field}, List.Forall₂ (RecordFieldRule nested) windows fields →
      ∀ window ∈ windows, Complete window.tokens := by
    intro windows fields each window member
    obtain ⟨field, own⟩ := exists_right_of_forall₂ each window member
    exact complete_recordField completes own
  cases rule with
  | based tokens isName each =>
    refine List.forall_mem_cons.mpr ⟨?_, fields_ each⟩
    rw [tokens]
    exact .token (by rw [isName]; rfl)
  | plain each => exact fields_ each

theorem consumes_recordLiteral {opening : Nat} {rest : List Token} {literal : RecordLiteral} {ending : Window}
    (rule : RecordLiteralRule nested opening rest literal ending) : Consumes rest ending.tokens := by
  cases rule with
  | empty cuts none_ => exact .cut cuts rfl (by rw [none_]; exact .nil)
  | fields cuts fields =>
    exact .cut cuts rfl (.of_separated rfl (separated_splitFrom _ _ _ _) (complete_recordFields completes fields))

/-- **An atom takes complete tokens off the front.** -/
theorem consumes_atom {window ending : Window} {value : Expression} (rule : AtomRule nested window value ending) :
    Consumes window.tokens ending.tokens := by
  cases rule with
  | list tokens kind | literal tokens kind | string tokens kind | formatString tokens kind | name tokens kind =>
    rw [tokens]
    exact .cons (by rw [kind]; rfl) (.refl _)
  | brackets tokens opens cuts found =>
    rw [tokens]
    exact .cons (by rw [opens]; rfl) (.cut cuts rfl (completes.expression found))
  | record tokens opens found =>
    rw [tokens]
    exact .cons (by rw [opens]; rfl) (consumes_recordLiteral completes found)
  | tagged tokens isName _ _ opens found =>
    rw [tokens]
    exact .cons (by rw [isName]; rfl) (.cons (by rw [opens]; rfl) (consumes_recordLiteral completes found))
  | negative tokens isMinus isNumber _ =>
    rw [tokens]
    exact .cons (by rw [isMinus]; rfl) (.cons (by rw [isNumber]; rfl) (.refl _))

theorem consumes_arguments {window ending : Window} {values : List Expression}
    (rule : ArgumentsRule nested window values ending) : Consumes window.tokens ending.tokens := by
  induction rule with
  | nil => exact .refl _
  | cons found _ step => exact (consumes_atom completes found).trans step

/-! ## Constructs -/

theorem complete_conditional {first : Token} (isFirst : first.kind = .keyword .ifWord) {window : Window} {value : Expression}
    (rule : ConditionalRule nested window value) : Complete (first :: window.tokens) := by
  obtain ⟨then_, else_, one, two, three⟩ := rule
  rw [← then_.whole, Cut.all, ← else_.whole, Cut.all]
  exact .conditional isFirst then_.kind else_.kind (completes.expression one) (completes.body two) (completes.body three)

theorem complete_branch {window : Window} {value : Branch} (rule : BranchRule nested window value) :
    Complete window.tokens := by
  obtain ⟨cuts, one, two⟩ := rule
  exact (Consumes.cut cuts rfl (wordless_pattern one).complete).complete (completes.body two)

theorem complete_branches {window : Window} {values : List Branch} (rule : BranchesRule nested window values) :
    Complete window.tokens := by
  obtain ⟨tokens, each⟩ := rule
  rw [tokens, ← flatMap_splitStarts _ window.before]
  refine .flatMap fun part member => ?_
  obtain ⟨value, own⟩ := exists_right_of_forall₂ each part member
  exact complete_branch completes own

theorem complete_caseOf {first : Token} (isFirst : first.kind = .keyword .caseWord) {window : Window} {value : Expression}
    (rule : CaseRule nested window value) : Complete (first :: window.tokens) := by
  obtain ⟨cuts, one, two⟩ := rule
  rw [← cuts.whole, Cut.all]
  exact .caseOf isFirst cuts.kind (completes.expression one) (complete_branches completes two)

theorem complete_lambda {window : Window} {value : Lambda} (rule : LambdaRule nested window value) :
    Complete window.tokens := by
  obtain ⟨tokens, -, areNames, isArrow, found⟩ := rule
  exact (consumes_names tokens areNames).complete (.cons (by rw [isArrow]; rfl) (completes.expression found))

/-- **An operand takes complete tokens off the front.** -/
theorem consumes_operand {window ending : Window} {value : Expression} (rule : OperandRule nested window value ending) :
    Consumes window.tokens ending.tokens := by
  cases rule with
  | conditional tokens isIf found =>
    rw [tokens]
    exact .all (complete_conditional completes isIf found)
  | caseOf tokens isCase found =>
    rw [tokens]
    exact .all (complete_caseOf completes isCase found)
  | lambda tokens isBackslash found =>
    rw [tokens]
    exact .all (.cons (by rw [isBackslash]; rfl) (complete_lambda completes found))
  | application tokens isName _ found =>
    rw [tokens]
    exact .cons (by rw [isName]; rfl) (consumes_arguments completes found)
  | atom found => exact consumes_atom completes found

theorem consumes_links {window ending : Window} {values : List Link} (rule : LinksRule nested window values ending) :
    Consumes window.tokens ending.tokens := by
  induction rule with
  | nil => exact .refl _
  | @cons _ _ _ token _ _ _ _ tokens isOperator found _ step =>
    have other : isConstructWord token.kind = false := by
      cases kind : token.kind with
      | keyword word => simp [kind, BinaryOperator.ofKind?] at isOperator
      | _ => rfl
    rw [tokens]
    exact .cons other ((consumes_operand completes found).trans step)

/-- **What is read as an expression is complete.** -/
theorem complete_chain {window : Window} {value : Expression} (rule : ChainRule nested window value) :
    Complete window.tokens := by
  obtain ⟨one, two, ended⟩ := rule
  exact ((consumes_operand completes one).trans (consumes_links completes two)).complete (by rw [ended]; exact .nil)

/-! ## Definitions -/

omit completes in
theorem consumes_signature {window ending : Window} {types? : Option (List Ty)}
    (rule : SignatureRule window types? ending) : Consumes window.tokens ending.tokens := by
  cases rule with
  | none => exact .refl _
  | some tokens isColon cuts found =>
    rw [tokens]
    exact .cons (by rw [isColon]; rfl) (.cut cuts rfl (wordless_signature found).complete)

theorem complete_argumentNames {window : Window} {names : List String} {result : Body}
    (rule : ArgumentNamesRule nested.body window names result) : Complete window.tokens := by
  obtain ⟨tokens, areNames, assigns, found⟩ := rule
  exact (consumes_names tokens areNames).complete (.cons (by rw [assigns]; rfl) (completes.body found))

theorem complete_definition {name : Token} {window : Window} {value : Block}
    (rule : DefinitionRule nested.body name window value) : Complete window.tokens := by
  cases rule with
  | untyped announced defined | typed announced defined =>
    exact (consumes_signature announced).complete (complete_argumentNames completes defined)

theorem complete_local {window : Window} {value : Block} (rule : BlockRule nested.body window value)
    (defines : isDefinition value = true) : Complete window.tokens := by
  obtain ⟨name, rest, tokens, isName, found⟩ := rule.definition_of_isDefinition defines
  rw [tokens]
  exact .cons (by rw [isName]; rfl) (complete_definition completes found)

theorem complete_locals {window : Window} {values : List Block} (rule : LocalsRule nested.body window values) :
    Complete window.tokens := by
  obtain ⟨-, each⟩ := rule
  rw [← flatMap_splitBlocks window]
  refine .flatMap fun part member => ?_
  obtain ⟨value, own, defines⟩ := exists_right_of_forall₂ each part member
  exact complete_local completes own defines

/-- **What is read as a body is complete.** -/
theorem complete_body {window : Window} {value : Body} (rule : BodyRule nested window value) : Complete window.tokens := by
  cases rule with
  | letIn tokens isLet cuts one two =>
    rw [tokens, ← cuts.whole, Cut.all]
    exact .letIn isLet cuts.kind (complete_locals completes one) (completes.expression two)
  | plain found => exact complete_chain completes found

end Nested

/-- **What is read is complete**, however deep it nests. -/
theorem completes_at (depth : Nat) : Completes ⟨expressionAt depth, bodyAt depth⟩ := by
  induction depth with
  | zero => refine ⟨fun read => ?_, fun read => ?_⟩ <;> cases read
  | succ depth step =>
    exact ⟨fun read => complete_chain step (expressionStep_rule read), fun read => complete_body step (bodyStep_rule read)⟩

/-- The readers of whole windows read what is complete. -/
theorem completes : Completes ⟨Grammar.expression, Grammar.body⟩ :=
  ⟨fun read => (completes_at _).expression read, fun read => (completes_at _).body read⟩

end DerwLang
