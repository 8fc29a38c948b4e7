/-
**Reading loses no leaf.**

Every reader takes tokens off the front of its window, or the whole window, and the leaves of what it takes fill the outline
of what it makes of them. Main facts:

* `outline_group`: a chain is grouped in the order in which it is written;
* `fits_at`: expressions and bodies have outlines that the leaves of their windows fill, however deeply they nest;
* `fills_parseExpression`: the leaves of a source fill the outline of the expression that it is read as.
-/

import DerwLang.Proofs.Accepted.Declaration
import DerwLang.Proofs.Leaves.Pattern

namespace DerwLang.Leaves

open Grammar Layout

/-- The leaves of nested windows fill the outlines of what is read of them. -/
structure Fits (nested : Nested) : Prop where
  expression : ∀ {window : Window} {value : Expression}, Worded window.tokens → nested.expression window = .ok value →
    Fills (outline value) (leavesOf window.tokens)
  body : ∀ {window : Window} {value : Body}, Worded window.tokens → nested.body window = .ok value →
    Fills (bodyOutline value) (leavesOf window.tokens)

/-! ## Names -/

theorem outline_applied (name : String) (arguments : List Expression) :
    outline (applied name arguments) = .text name :: (outlines arguments).flatten := by
  cases arguments <;> simp [applied, outline, outlines]

/-- A name of another module stands in the outline as it is written. -/
theorem outline_reference (name : String) (arguments : List Expression) :
    outline (reference name arguments) = .text name :: (outlines arguments).flatten := by
  rw [reference]
  split
  · rename_i head path last init final
    have segments : Text.splitAt '.' name = (head :: path) ++ [last] := by
      rw [← init]
      exact (List.dropLast_append_getLast? last final).symm
    split
    · have whole := Written.whole_of_splitAt (List.cons_ne_nil head path) segments
      cases arguments <;> simp [applied, outline, outlines, whole]
    · exact outline_applied name arguments
  · exact outline_applied name arguments

theorem leaves_of_rangeBound {tokens : List Token} {bound : String} (read : rangeBound tokens = .ok bound) :
    leavesOf tokens = leaves bound.toList := by
  obtain ⟨token, rfl, -, rfl⟩ := token_of_rangeBound read
  simp [leavesOf]

/-! ## Chains -/

/-- What operands that wait are written with, the one below first. -/
def waitingOutline : List Waiting → List Slot
  | [] => []
  | top :: below => waitingOutline below ++ (outline top.operand ++ [.text top.operator.symbol])

/-- What operators with their operands are written with. -/
def linksOutline (links : List Link) : List Slot :=
  links.flatMap fun link => .text link.operator.symbol :: outline link.operand

theorem outline_close (precedence : Nat) (waiting : List Waiting) (operand : Expression) :
    waitingOutline (Chain.close precedence operand waiting).2 ++ outline (Chain.close precedence operand waiting).1 =
      waitingOutline waiting ++ outline operand := by
  fun_induction Chain.close precedence operand waiting with
  | case1 => rfl
  | case2 operand top below closes step => simp [step, outline, waitingOutline]
  | case3 => rfl

/-- At the end of a chain nothing waits any more. -/
theorem close_zero (waiting : List Waiting) (operand : Expression) : (Chain.close 0 operand waiting).2 = [] := by
  fun_induction Chain.close 0 operand waiting with
  | case1 => rfl
  | case2 operand top below closes step => exact step
  | case3 operand top below stays =>
    refine absurd ?_ stays
    cases top.operator <;> decide

theorem outline_groupFrom (waiting : List Waiting) (operand : Expression) (links : List Link) :
    outline (Chain.groupFrom waiting operand links) =
      waitingOutline waiting ++ outline operand ++ linksOutline links := by
  induction links generalizing waiting operand with
  | nil =>
    have closed := outline_close 0 waiting operand
    rw [close_zero] at closed
    simpa [Chain.groupFrom, linksOutline, waitingOutline] using closed
  | cons link rest step =>
    have closed := outline_close link.operator.precedence waiting operand
    rw [Chain.groupFrom, step, waitingOutline, ← closed]
    simp [linksOutline]

/-- **A chain is grouped in the order in which it is written.** -/
theorem outline_group (first : Expression) (links : List Link) :
    outline (Chain.group first links) = outline first ++ linksOutline links :=
  outline_groupFrom [] first links

theorem body_of_operator {token : Token} (isWord : IsWord token.kind token.body.toList) {operator : BinaryOperator}
    (known : BinaryOperator.ofKind? token.kind = some operator) : token.body = operator.symbol := by
  have kind : token.kind = .operator operator.sign := by
    cases kind : token.kind with
    | operator sign =>
      rw [kind] at known
      cases sign <;> cases known <;> rfl
    | _ => simp [kind, BinaryOperator.ofKind?] at known
  exact body_of_kind isWord kind (by cases operator <;> decide)

/-! ## Separated windows -/

/-- A `let` holds a definition. -/
theorem exists_of_locals {body : Window → Parsed Body} {window : Window} {locals : List Block}
    (rule : LocalsRule body window locals) : ∃ definition more, locals = definition :: more := by
  refine List.exists_cons_of_ne_nil ?_
  obtain ⟨some_, each⟩ := rule
  rw [← List.length_pos_iff, ← each.length_eq, List.length_pos_iff, splitBlocks]
  cases tokens : window.tokens with
  | nil => exact absurd tokens some_
  | cons token rest => exact blocksFrom_ne_nil _ _ _ _ _

theorem leavesOf_flatMap (windows : List Window) :
    leavesOf (windows.flatMap Window.tokens) = (windows.map fun window => leavesOf window.tokens).flatten := by
  rw [← List.flatMap_def]
  exact List.flatMap_assoc

/-- The leaves between commas fill pieces with commas between. -/
theorem fills_commas {before : Nat} {tokens : List Token} (worded : Worded tokens) {pieces : List (List Slot)}
    (each : List.Forall₂ Fills pieces
      ((Window.splitFrom .comma 0 before tokens).map fun part => leavesOf part.tokens)) :
    Fills (commas pieces) (leavesOf tokens) := by
  have filled := Fills.intercalate "," each
  rwa [show "," = spelling .comma from rfl,
    ← leavesOf_separated (by decide) (separated_splitFrom .comma 0 before tokens) worded] at filled

/-- The leaves of windows that are read one by one fill the pieces that are made of them. -/
theorem fills_each {α : Type} {R : Window → α → Prop} {draw : α → List Slot} {windows : List Window} {values : List α}
    (related : List.Forall₂ R windows values)
    (each : ∀ window ∈ windows, ∀ value, R window value → Fills (draw value) (leavesOf window.tokens)) :
    List.Forall₂ Fills (values.map draw) (windows.map fun window => leavesOf window.tokens) := by
  induction related with
  | nil => exact .nil
  | cons first _ step =>
    rw [List.forall_mem_cons] at each
    exact .cons (each.1 _ first) (step each.2)

/-! ## Tokens that are read alone -/

theorem fills_token (token : Token) : Fills [.text token.body] (leavesOf [token]) := by
  rw [leavesOf_cons, leavesOf_nil, List.append_nil]
  exact .single token.body

/-- A token within round brackets stands for itself. -/
theorem leavesOf_round {opening closing : Token} {inside : List Token} (first : IsWord opening.kind opening.body.toList)
    (last : IsWord closing.kind closing.body.toList) (opens : opening.kind = .openBracket)
    (closes : closing.kind = .closeBracket) : leavesOf (opening :: (inside ++ [closing])) = leavesOf inside := by
  rw [leavesOf_cons, leavesOf_append, leavesOf_cons, leavesOf_nil, leaves_of_isRound first (.inl opens),
    leaves_of_isRound last (.inr closes)]
  simp

/-- A minus sign and the number right after it are the leaves of the negative number. -/
theorem fills_negative {minus number : Token} (worded : IsWord minus.kind minus.body.toList)
    (isMinus : minus.kind = .operator .minus) (digit : number.body.toList.head?.any Char.isDigit = true) :
    Fills [.text ("-" ++ number.body)] (leavesOf [minus, number]) := by
  have whole : leavesOf [minus, number] = leaves ("-" ++ number.body).toList := by
    rw [leaves_negative digit, leavesOf_cons, leavesOf_cons, leavesOf_nil, List.append_nil,
      body_of_kind worded isMinus (by decide)]
    rfl
  rw [whole]
  exact .single _

section Operands

variable {nested : Nested} (fits : Fits nested)

include fits

/-! ## Records and lists -/

theorem fills_recordField {window : Window} {field : Field} (worded : Worded window.tokens)
    (rule : RecordFieldRule nested window field) :
    Fills (.text field.name :: .text ":" :: outline field.value) (leavesOf window.tokens) := by
  obtain ⟨tokens, -, isColon, found⟩ := rule
  rw [tokens] at worded ⊢
  obtain ⟨second, later⟩ := worded_cons.mp (worded_cons.mp worded).2
  rw [leavesOf_cons, leavesOf_cons, body_of_kind second.1 isColon (by decide)]
  exact .text _ (.text ":" (fits.expression later found))

theorem fills_recordFields {windows : List Window} {base : Option String} {fields : List Field}
    (worded : ∀ window ∈ windows, Worded window.tokens) (rule : RecordFieldsRule nested windows ⟨base, fields⟩) :
    List.Forall₂ Fills (base.toList.map (fun name => [.text name]) ++ fieldOutlines fields)
      (windows.map fun window => leavesOf window.tokens) := by
  have all : ∀ {windows : List Window}, (∀ window ∈ windows, Worded window.tokens) →
      List.Forall₂ (RecordFieldRule nested) windows fields →
        List.Forall₂ Fills (fieldOutlines fields) (windows.map fun window => leavesOf window.tokens) := by
    intro windows worded each
    rw [fieldOutlines_eq]
    exact fills_each each fun window member field own => fills_recordField fits (worded window member) own
  cases rule with
  | @based name _ _ _ tokens _ each =>
    refine .cons ?_ (all (List.forall_mem_cons.mp worded).2 each)
    simpa [tokens, leavesOf] using Fills.single name.body
  | plain each => exact all worded each

theorem fills_recordLiteral {opening : Nat} {rest : List Token} {literal : RecordLiteral} {ending : Window}
    (worded : Worded rest) (rule : RecordLiteralRule nested opening rest literal ending) :
    ∃ own, rest = own ++ ending.tokens ∧ Fills (recordOutline literal) (leaves "\x7b".toList ++ leavesOf own) := by
  obtain ⟨base, fields⟩ := literal
  -- the brackets stand around whatever fills the pieces between them
  have closed : ∀ {cut : Cut} {pieces : List (List Slot)}, CutsAt .closeCurly rest cut →
      Fills (commas pieces) (leavesOf cut.inside) →
        rest = (cut.inside ++ [cut.token]) ++ cut.after ∧ Fills (.text "\x7b" :: (commas pieces ++ [.text "\x7d"]))
          (leaves "\x7b".toList ++ leavesOf (cut.inside ++ [cut.token])) := by
    intro cut pieces cuts inner
    refine ⟨by rw [← cuts.whole, Cut.all, List.append_assoc]; rfl, ?_⟩
    rw [leavesOf_append, leavesOf_cons, body_of_kind (worded.cut cuts.whole).2.1 cuts.kind (by decide), leavesOf_nil,
      List.append_nil]
    exact inner.between _ _
  cases rule with
  | empty cuts none_ =>
    have nothing : Fills (commas []) [] := .nil
    exact ⟨_, closed cuts (by rwa [none_])⟩
  | fields cuts fields =>
    have inside := (worded.cut cuts.whole).1
    exact ⟨_, closed cuts (fills_commas inside (fills_recordFields fits (inside.splitFrom _ 0 _) fields))⟩

theorem fills_listLiteral {literal : Token} {value : Expression} (isWord : IsWord literal.kind literal.body.toList)
    (isList : isListLiteral literal = true) (rule : ListLiteralRule nested (listTokens literal) value) :
    Fills (outline value) (leaves literal.body.toList) := by
  have worded : Worded (listTokens literal) := worded_significant _ _ _
  rw [leaves_of_isListLiteral isWord isList, ← leavesOf_significant (unquote literal.body) literal.line (literal.column + 1),
    ← listTokens]
  cases rule with
  | empty none_ =>
    rw [none_]
    exact Fills.nil.between _ _
  | @range _ first last cuts one two =>
    rw [leavesOf_cut worded cuts (by decide), leaves_of_rangeBound one, leaves_of_rangeBound two]
    exact ((Fills.single first).append (.text ".." (Fills.single last))).between _ _
  | items each =>
    have filled := fills_each each fun window member item own => fits.expression (worded.splitFrom _ 0 _ window member) own
    rw [← outlines_eq] at filled
    exact (fills_commas worded filled).between _ _

/-! ## Atoms -/

/-- **The leaves of an atom fill its outline**, and the other tokens are left. -/
theorem fills_atom {window ending : Window} {value : Expression} (worded : Worded window.tokens)
    (rule : AtomRule nested window value ending) :
    ∃ own, window.tokens = own ++ ending.tokens ∧ Fills (outline value) (leavesOf own) := by
  cases rule with
  | @list token _ _ tokens _ isList found =>
    rw [tokens] at worded
    refine ⟨[token], tokens, ?_⟩
    rw [leavesOf_cons, leavesOf_nil, List.append_nil]
    exact fills_listLiteral fits (worded_cons.mp worded).1.1 isList found
  | @literal token _ tokens => exact ⟨[token], tokens, fills_token token⟩
  | @string token _ tokens isString =>
    rw [tokens] at worded
    refine ⟨[token], tokens, ?_⟩
    rw [outline, quoted_unquote (worded_cons.mp worded).1.1 isString]
    exact fills_token token
  | @formatString token _ tokens isFormatString =>
    rw [tokens] at worded
    refine ⟨[token], tokens, ?_⟩
    rw [outline, backquoted_unquote (worded_cons.mp worded).1.1 isFormatString]
    exact fills_token token
  | @brackets token _ cut _ tokens opens cuts found =>
    rw [tokens] at worded
    obtain ⟨first, later⟩ := worded_cons.mp worded
    obtain ⟨inside, closing, -⟩ := later.cut cuts.whole
    refine ⟨token :: (cut.inside ++ [cut.token]), by simp [tokens, ← cuts.whole, Cut.all], ?_⟩
    rw [leavesOf_round first.1 closing opens cuts.kind]
    exact fits.expression inside found
  | @record token _ _ _ tokens opens found =>
    rw [tokens] at worded
    obtain ⟨first, later⟩ := worded_cons.mp worded
    obtain ⟨own, rfl, filled⟩ := fills_recordLiteral fits later found
    refine ⟨token :: own, tokens, ?_⟩
    rw [leavesOf_cons, body_of_kind first.1 opens (by decide)]
    exact filled
  | @name token _ tokens =>
    refine ⟨[token], tokens, ?_⟩
    rw [outline_reference]
    exact fills_token token
  | @tagged token next _ _ _ tokens _ _ _ opens found =>
    rw [tokens] at worded
    obtain ⟨second, later⟩ := worded_cons.mp (worded_cons.mp worded).2
    obtain ⟨own, rfl, filled⟩ := fills_recordLiteral fits later found
    refine ⟨token :: next :: own, tokens, ?_⟩
    rw [leavesOf_cons, leavesOf_cons, body_of_kind second.1 opens (by decide)]
    exact .text _ filled
  | @negative minus number _ tokens isMinus _ digit =>
    rw [tokens] at worded
    exact ⟨[minus, number], tokens, fills_negative (worded_cons.mp worded).1.1 isMinus digit⟩

theorem fills_arguments {window ending : Window} {values : List Expression} (worded : Worded window.tokens)
    (rule : ArgumentsRule nested window values ending) :
    ∃ own, window.tokens = own ++ ending.tokens ∧ Fills (outlines values).flatten (leavesOf own) := by
  induction rule with
  | nil => exact ⟨[], rfl, .nil⟩
  | cons found _ step =>
    obtain ⟨own, whole, filled⟩ := fills_atom fits worded found
    rw [whole] at worded
    obtain ⟨rest, more, fills⟩ := step (worded_append.mp worded).2
    refine ⟨own ++ rest, by rw [whole, more, List.append_assoc], ?_⟩
    rw [leavesOf_append]
    exact filled.append fills

/-! ## Constructs -/

theorem fills_conditional {window : Window} {value : Expression} (worded : Worded window.tokens)
    (rule : ConditionalRule nested window value) :
    Fills (outline value) (leaves "if".toList ++ leavesOf window.tokens) := by
  obtain ⟨then_, else_, one, two, three⟩ := rule
  obtain ⟨before, -, after⟩ := worded.cut then_.whole
  obtain ⟨between, -, last⟩ := after.cut else_.whole
  rw [leavesOf_cut worded then_ (by decide), leavesOf_cut after else_ (by decide)]
  exact .text "if" ((fits.expression before one).append (.text "then"
    ((fits.body between two).append (.text "else" (fits.body last three)))))

theorem fills_branch {window : Window} {value : Branch} (worded : Worded window.tokens)
    (rule : BranchRule nested window value) :
    Fills (.pattern value.pattern :: .text "->" :: bodyOutline value.body) (leavesOf window.tokens) := by
  obtain ⟨cuts, one, two⟩ := rule
  obtain ⟨before, -, after⟩ := worded.cut cuts.whole
  obtain ⟨texts, spells, same⟩ := spells_pattern before one
  rw [leavesOf_cut worded cuts (by decide), same]
  exact .pattern spells (.text "->" (fits.body after two))

theorem fills_branches {window : Window} {values : List Branch} (worded : Worded window.tokens)
    (rule : BranchesRule nested window values) :
    Fills (branchOutlines values).flatten (leavesOf window.tokens) := by
  obtain ⟨tokens, each⟩ := rule
  rw [tokens] at worded ⊢
  have filled := fills_each each fun part member _ own =>
    fills_branch fits (forall_splitStarts worded _ _ part member) own
  rw [← flatMap_splitStarts _ window.before, leavesOf_flatMap, branchOutlines_eq]
  exact Fills.flatten filled

theorem fills_caseOf {window : Window} {value : Expression} (worded : Worded window.tokens)
    (rule : CaseRule nested window value) :
    Fills (outline value) (leaves "case".toList ++ leavesOf window.tokens) := by
  obtain ⟨cuts, one, two⟩ := rule
  obtain ⟨before, -, after⟩ := worded.cut cuts.whole
  rw [leavesOf_cut worded cuts (by decide)]
  exact .text "case" ((fits.expression before one).append (.text "of" (fills_branches fits after two)))

theorem fills_lambda {window : Window} {value : Lambda} (worded : Worded window.tokens)
    (rule : LambdaRule nested window value) :
    Fills (outline (.lambda value)) (leaves "\\".toList ++ leavesOf window.tokens) := by
  obtain ⟨tokens, -, -, isArrow, found⟩ := rule
  rw [tokens] at worded ⊢
  obtain ⟨arrow, later⟩ := worded_cons.mp (worded_append.mp worded).2
  rw [leavesOf_append, leavesOf_cons, body_of_kind arrow.1 isArrow (by decide), leavesOf_eq]
  exact .text "\\" ((Fills.texts _).append (.text "->" (fits.expression later found)))

/-! ## Operands and chains -/

/-- **The leaves of an operand fill its outline**, and the other tokens are left. -/
theorem fills_operand {window ending : Window} {value : Expression} (worded : Worded window.tokens)
    (rule : OperandRule nested window value ending) :
    ∃ own, window.tokens = own ++ ending.tokens ∧ Fills (outline value) (leavesOf own) := by
  have all : window.tokens = window.tokens ++ window.finished.tokens := (List.append_nil _).symm
  cases rule with
  | conditional tokens isIf found =>
    refine ⟨_, all, ?_⟩
    rw [tokens] at worded ⊢
    obtain ⟨first, later⟩ := worded_cons.mp worded
    rw [leavesOf_cons, body_of_kind first.1 isIf (by decide)]
    exact fills_conditional fits later found
  | caseOf tokens isCase found =>
    refine ⟨_, all, ?_⟩
    rw [tokens] at worded ⊢
    obtain ⟨first, later⟩ := worded_cons.mp worded
    rw [leavesOf_cons, body_of_kind first.1 isCase (by decide)]
    exact fills_caseOf fits later found
  | lambda tokens isBackslash found =>
    refine ⟨_, all, ?_⟩
    rw [tokens] at worded ⊢
    obtain ⟨first, later⟩ := worded_cons.mp worded
    rw [leavesOf_cons, body_of_kind first.1 isBackslash (by decide)]
    exact fills_lambda fits later found
  | @application token _ _ _ tokens _ _ found =>
    rw [tokens] at worded
    obtain ⟨own, whole, filled⟩ := fills_arguments fits (worded_cons.mp worded).2 found
    refine ⟨token :: own, by rw [tokens, List.cons_append]; exact congrArg _ whole, ?_⟩
    rw [leavesOf_cons, outline_reference]
    exact .text _ filled
  | atom found => exact fills_atom fits worded found

theorem fills_links {window ending : Window} {values : List Link} (worded : Worded window.tokens)
    (rule : LinksRule nested window values ending) :
    ∃ own, window.tokens = own ++ ending.tokens ∧ Fills (linksOutline values) (leavesOf own) := by
  induction rule with
  | nil => exact ⟨[], rfl, .nil⟩
  | @cons _ _ _ token _ _ _ _ tokens isOperator found _ step =>
    rw [tokens] at worded
    obtain ⟨sign, later⟩ := worded_cons.mp worded
    obtain ⟨own, whole, filled⟩ := fills_operand fits later found
    dsimp only at whole
    rw [whole] at later
    obtain ⟨more, left, fills⟩ := step (worded_append.mp later).2
    refine ⟨token :: (own ++ more), by rw [tokens, whole, left]; simp, ?_⟩
    rw [leavesOf_cons, leavesOf_append, body_of_operator sign.1 isOperator]
    exact .text _ (filled.append fills)

/-- **The leaves of a window fill the outline of the expression** that it is read as. -/
theorem fills_chain {window : Window} {value : Expression} (worded : Worded window.tokens)
    (rule : ChainRule nested window value) : Fills (outline value) (leavesOf window.tokens) := by
  obtain ⟨one, two, ended⟩ := rule
  obtain ⟨own, whole, filled⟩ := fills_operand fits worded one
  rw [whole] at worded
  obtain ⟨more, left, fills⟩ := fills_links fits (worded_append.mp worded).2 two
  rw [ended, List.append_nil] at left
  rw [whole, left, leavesOf_append, outline_group]
  exact filled.append fills

/-- **The leaves of a window fill the outline of the body** that it is read as. -/
theorem fills_body {window : Window} {value : Body} (worded : Worded window.tokens)
    (rule : BodyRule nested window value) : Fills (bodyOutline value) (leavesOf window.tokens) := by
  cases rule with
  | @letIn _ rest _ _ _ tokens isLet _ one _ =>
    obtain ⟨definition, more, rfl⟩ := exists_of_locals one
    rw [tokens] at worded ⊢
    rw [leavesOf_cons, body_of_kind (worded_cons.mp worded).1.1 isLet (by decide), ← List.append_nil (leavesOf rest)]
    exact .locals _ .nil
  | plain found => exact fills_chain fits worded found

end Operands

/-! ## The readers of the grammar -/

/-- **Reading loses no leaf**, however deeply windows nest. -/
theorem fits_at (depth : Nat) : Fits ⟨expressionAt depth, bodyAt depth⟩ := by
  induction depth with
  | zero => refine ⟨fun _ read => ?_, fun _ read => ?_⟩ <;> cases read
  | succ depth step =>
    exact ⟨fun worded read => fills_chain step worded (expressionStep_rule read),
      fun worded read => fills_body step worded (bodyStep_rule read)⟩

/-- **The leaves of a source fill the outline of the expression** that it is read as. -/
theorem fills_parseExpression {source : String} {value : Expression} (read : parseExpression source = .ok value) :
    Fills (outline value) (leaves source.toList) := by
  rw [← leavesOf_significant source 1 1]
  exact (fits_at _).expression (worded_significant source 1 1) read

end DerwLang.Leaves
