/-
**Written chains are read back.**

A chain is read operand by operand, with what follows it left. An operand in the text is an expression of one piece, or any
expression in brackets (`takes_operand`). Operands with operators between make a row (`Row`), and a row that fills its
window is the expression that it was written for:

* `row_expression`: an expression without a form that reaches to the end is a row;
* `read_row`: a row is read as its expression.
-/

import DerwLang.Proofs.Reading.Atom
import DerwLang.Proofs.Reading.Grouping

namespace DerwLang

open Grammar Layout

namespace Written

open Doc

variable {nested : Nested} {size level : Nat} {rest : List Token}

/-! ## Single operands -/

/-- The expression is written as a single operand. -/
def isSingle : Expression → Bool
  | .conditional _ _ _ | .caseOf _ _ | .binary _ _ _ | .lambda _ | .lambdaCall _ _ => false
  | _ => true

/-- A tag is an atom. -/
theorem operand_tag {name : String} (isTag : Settled.isTag name = true) (before line column : Nat) (more : List Token) :
    Grammar.operand nested ⟨before, ⟨.identifier, name, line, column⟩ :: more⟩ =
      atom nested ⟨before, ⟨.identifier, name, line, column⟩ :: more⟩ := by
  rw [Settled.isTag] at isTag
  rw [Grammar.operand]
  simp [isTag]

/-- Any other name is applied to the arguments after it. -/
theorem operand_applied {name : String} (noTag : Settled.isTag name = false) {line : Nat} {more : List Token}
    {items : List Expression} {ending : Window} (read : Grammar.arguments nested ⟨line, more⟩ = .ok (items, ending))
    (before column : Nat) :
    Grammar.operand nested ⟨before, ⟨.identifier, name, line, column⟩ :: more⟩ = .ok (reference name items, ending) := by
  rw [Settled.isTag] at noTag
  rw [Grammar.operand]
  simp only [noTag, Bool.false_eq_true, if_false, read]
  rfl

/-- The words of a name and of what follows. -/
theorem tokens_named {name : String} (isName : Sound.Name name) (doc : Doc) (position : Position) :
    ((words name ++ doc).shift level).tokens position =
      ⟨.identifier, name, position.line, position.column⟩ :: (doc.shift level).tokens (position.after name.toList) := by
  rw [shift_append, shift_words level isName, tokens_append, tokens_words isName, chars_words]
  rfl

/-- A kind of word that starts an atom and nothing else. -/
def startsOnlyAtom : Token.Kind → Bool
  | .literal | .string | .formatString | .openBracket | .openCurly | .operator .minus => true
  | _ => false

theorem operand_atom {token : Token} (only : startsOnlyAtom token.kind = true) (before : Nat) (more : List Token) :
    Grammar.operand nested ⟨before, token :: more⟩ = atom nested ⟨before, token :: more⟩ := by
  rw [Grammar.operand]
  cases kind : token.kind <;> simp_all [startsOnlyAtom]

/-- What is an atom is an operand, unless it starts with a name. -/
theorem operand_of_atom {doc : Doc} {value : Expression} {kind : Token.Kind} {kinds : List Token.Kind}
    (takes : Takes (atom nested) level doc value rest) (first : doc.kinds = kind :: kinds)
    (only : startsOnlyAtom kind = true) : Takes (Grammar.operand nested) level doc value rest := by
  intro before position indented
  have whole := map_kind_tokens position (doc.shift level)
  rw [kinds_shift, first] at whole
  cases tokens : (doc.shift level).tokens position with
  | nil => simp [tokens] at whole
  | cons token more =>
    rw [tokens, List.map_cons] at whole
    rw [← (List.cons.inj whole).1] at only
    rw [List.cons_append, operand_atom only, ← List.cons_append, ← tokens]
    exact takes before position indented

/-- A name with arguments is read back. -/
theorem takes_applied (ready : Ready nested size) {name : String} (isName : Sound.Name name)
    (noTag : Settled.isTag name = false) {items : List Expression} (sound : ∀ item ∈ items, item.Everywhere Sound.checks)
    (fits : (joined beside (words name :: arguments items)).size ≤ size + 1) (stops : Stops rest) :
    Takes (Grammar.operand nested) level (joined beside (words name :: arguments items))
      (reference name (Settled.merge (Settled.expressions level items))) rest := by
  rw [joined_beside] at fits ⊢
  rw [size_append, words_of_isWord isName] at fits
  intro before position indented
  have within : (spaced (arguments items)).size ≤ size := by
    simp only [single, Doc.size] at fits
    omega
  have takes : Takes (Grammar.arguments nested) level _ _ rest := takes_arguments ready sound within stops
  obtain ⟨line, read⟩ := takes position.line (position.after name.toList)
    (indented.flat (not_mem_of_isNameChar isName.isNameChar))
  exact ⟨line, by rw [tokens_named isName, List.cons_append, operand_applied noTag read]⟩

theorem applied_of_ne_nil {items : List Expression} (some_ : items ≠ []) (name : String) :
    applied name items = .call name items := by
  cases items with
  | nil => exact absurd rfl some_
  | cons item more => rfl

/-- Arguments that are read anew are some if there were some. -/
theorem settled_arguments_ne_nil {items : List Expression} (some_ : items ≠ []) (level : Nat) :
    Settled.merge (Settled.expressions level items) ≠ [] := by
  rw [← List.isEmpty_eq_false_iff, Settled.isEmpty_merge, Settled.expressions_eq]
  simpa using some_

/-- A name is an operand. -/
theorem takes_name {name : String} (isName : Sound.Name name) (noTag : Settled.isTag name = false) (stops : Stops rest) :
    Takes (Grammar.operand nested) level (words name) (reference name []) rest := by
  intro before position _
  refine ⟨position.line, ?_⟩
  rw [shift_words level isName, tokens_words isName, List.singleton_append, operand_applied noTag (arguments_stop stops _)]

/-- **An expression of one piece is read back.** -/
theorem takes_single (ready : Ready nested size) {item : Expression} (sound : item.Everywhere Sound.checks)
    (single : isSingle item = true) (fits : (expression item).size ≤ size + 1) (stops : Stops rest) :
    Takes (Grammar.operand nested) level (expression item) (Settled.expression level item) rest := by
  have atomic : Canonical.isAtomic item = true → Takes (atom nested) level (expression item)
      (Settled.expression level item) rest := fun atomic =>
    takes_atom ready sound atomic fits fun _ _ _ => stops.noRecord
  cases item with
  | value text =>
    have takes : Takes (atom nested) level (words text) (.value text) rest :=
      takes_value sound.here fun _ => stops.noRecord
    rcases sound.here with ⟨name, plain⟩ | ⟨isWord, -⟩ | negative
    · cases isTag : Settled.isTag text with
      | false =>
        rw [expression, Settled.expression, ← reference_value plain]
        exact takes_name name isTag stops
      | true =>
        intro before position indented
        have read := takes before position indented
        rw [shift_words level name, tokens_words name, List.singleton_append] at read
        rw [expression, shift_words level name, tokens_words name, List.singleton_append, operand_tag isTag]
        exact read
    · exact operand_of_atom takes (kinds_words isWord) rfl
    · obtain ⟨_, _, same, -⟩ := words_negative negative
      exact operand_of_atom takes (congrArg Doc.kinds same) rfl
  | string text => exact operand_of_atom (atomic rfl) rfl rfl
  | formatString text => exact operand_of_atom (atomic rfl) rfl rfl
  | list items =>
    cases items with
    | nil => exact operand_of_atom (atomic rfl) rfl rfl
    | cons item more => exact operand_of_atom (atomic rfl) rfl rfl
  | range first last => exact operand_of_atom (atomic rfl) rfl rfl
  | record literal =>
    obtain ⟨base, fields⟩ := literal
    obtain ⟨kinds, same⟩ := kinds_recordLiteral (base.toList.map words ++ recordFields fields)
    exact operand_of_atom (atomic rfl) same rfl
  | construct tag literal =>
    obtain ⟨base, fields⟩ := literal
    have isName : Sound.Name tag := sound.here.1.1
    have isTag : Settled.isTag tag = true := by simp [Settled.isTag, sound.here.1.2]
    intro before position indented
    have read := atomic rfl before position indented
    rw [expression, beside, tokens_named isName, List.cons_append] at read ⊢
    rw [operand_tag isTag]
    exact read
  | call name items =>
    rw [everywhere_call] at sound
    obtain ⟨⟨isName, small, some_⟩, soundItems⟩ := sound
    have read : Takes (Grammar.operand nested) level _ _ rest :=
      takes_applied ready isName (by simp [Settled.isTag, small]) soundItems fits stops
    rw [reference_small small, applied_of_ne_nil (settled_arguments_ne_nil some_ level)] at read
    exact read
  | reference path value =>
    have noTag : ∀ name, Settled.isTag (whole path name) = false := fun name => by
      simp [Settled.isTag, hasChar_whole]
    cases value with
    | value name =>
      rw [expression, Settled.expression, Settled.expression]
      have read : Takes (Grammar.operand nested) level _ _ rest := takes_name sound.here.1 (noTag name) stops
      rw [reference_whole sound.here] at read
      exact read
    | call name items =>
      rw [everywhere_reference_call] at sound
      obtain ⟨⟨isReference, some_⟩, soundItems⟩ := sound
      have read : Takes (Grammar.operand nested) level _ _ rest :=
        takes_applied ready isReference.1 (noTag name) soundItems fits stops
      rw [reference_whole isReference, applied_of_ne_nil (settled_arguments_ne_nil some_ level)] at read
      exact read
    | _ => exact absurd sound.here (by simp [Sound.checks, Sound.Expression])
  | conditional _ _ _ | caseOf _ _ | binary _ _ _ | lambda _ | lambdaCall _ _ => simp [isSingle] at single

/-! ## Rows -/

/-- No comparison is open that an operator of a row would continue, the least precedence in the row being the given
one. -/
def Unopposed (least : Nat) (comparing : Comparing) : Prop :=
  least ≤ BinaryOperator.equal.precedence → comparing = none

/-- The reader takes the document off the front of a window as a chain that groups to the value. Operators that bind tighter
than comparisons leave open what was open before. -/
def Row (nested : Nested) (level : Nat) (doc : Doc) (least : Nat) (value : Expression) (rest : List Token) : Prop :=
  ∀ (before : Nat) (position : Position), Indented level position → ∃ first links line ending,
    Grammar.operand nested ⟨before, (doc.shift level).tokens position ++ rest⟩ = .ok (first, ending) ∧
      Chain.Groups least value first links ∧
      ∀ comparing, Unopposed least comparing → ∃ after : Comparing,
        (BinaryOperator.equal.precedence < least → after = comparing) ∧
        ∀ {others final}, Grammar.links nested after ⟨line, rest⟩ = .ok (others, final) →
          Grammar.links nested comparing ending = .ok (links ++ others, final)

theorem row_of_takes {doc : Doc} {value : Expression} (takes : Takes (Grammar.operand nested) level doc value rest) :
    Row nested level doc Chain.operandPrecedence value rest := by
  intro before position indented
  obtain ⟨line, read⟩ := takes before position indented
  exact ⟨value, [], line, _, read, Chain.groups_operand value, fun comparing _ => ⟨comparing, fun _ => rfl, id⟩⟩

theorem links_nil (comparing : Comparing) (line : Nat) :
    Grammar.links nested comparing ⟨line, []⟩ = .ok ([], ⟨line, []⟩) := by
  rw [Grammar.links]

/-- One more operator with its operand. -/
theorem links_cons {operator : BinaryOperator} {sign : Token} (isSign : sign.kind = .operator operator.sign)
    {comparing : Comparing} (free : comparing.chainedWith operator = none) {more : List Token} {second : Expression}
    {ending final : Window} {others : List Link}
    (read : Grammar.operand nested ⟨sign.line, more⟩ = .ok (second, ending))
    (later : Grammar.links nested (comparing.after operator) ending = .ok (others, final)) (before : Nat) :
    Grammar.links nested comparing ⟨before, sign :: more⟩ = .ok (⟨operator, second⟩ :: others, final) := by
  have found : BinaryOperator.ofKind? sign.kind = some operator := by
    rw [isSign, BinaryOperator.ofKind?, BinaryOperator.ofSign?_sign]
  rw [Grammar.links]
  split
  · rename_i same
    simp at same
  · rename_i token tokens same
    obtain ⟨rfl, rfl⟩ := List.cons.inj same
    simp only [found, free]
    split
    · rename_i error failed
      rw [read] at failed
      simp at failed
    · rename_i item window same
      rw [read, Except.ok.injEq, Prod.mk.injEq] at same
      obtain ⟨rfl, rfl⟩ := same
      rw [later]
      rfl

/-- How tightly the left side of an operator has to bind, and whether it may be an application by `<|`. -/
def FitsLeft (operator : BinaryOperator) (least : Nat) (value : Expression) : Prop :=
  (operator.precedence < least ∨ operator.precedence = least ∧ operator.associativity = .left) ∧
    (least = Chain.operandPrecedence → operator = .pipeInto → ¬ Chain.IsPipeFrom value)

/-- How tightly the right side of an operator has to bind, and whether it may be an application by `<|`. -/
def FitsRight (operator : BinaryOperator) (least : Nat) (value : Expression) : Prop :=
  Chain.rightPrecedence operator ≤ least ∧
    (least = Chain.operandPrecedence → operator = .pipeFrom → ¬ Chain.IsPipeFrom value)

/-- The sign of an operator starts no argument. -/
theorem stops_operator {operator : BinaryOperator} {sign : Token} (isSign : sign.kind = .operator operator.sign)
    (more : List Token) : Stops (sign :: more) := by
  intro token member
  obtain rfl := Option.some.inj member
  rw [isSign]
  rfl

/-- An operator that binds tighter than comparisons leaves open what was open. -/
theorem after_of_tight {operator : BinaryOperator} (tight : BinaryOperator.equal.precedence < operator.precedence)
    (comparing : Comparing) : comparing.after operator = comparing := by
  cases operator <;> first | rfl | exact absurd tight (by decide)

/-- An operator on whose right a comparison may stand closes what was open. -/
theorem after_of_loose {operator : BinaryOperator}
    (loose : Chain.rightPrecedence operator ≤ BinaryOperator.equal.precedence) (comparing : Comparing) :
    comparing.after operator = none := by
  cases operator <;> first | rfl | exact absurd loose (by decide)

/-- A comparison stands beside operands that bind tighter. -/
theorem tight_of_comparison {operator : BinaryOperator} (comparison : operator.isComparison = true) {least : Nat}
    {left : Expression} (fits : FitsLeft operator least left) :
    operator.precedence = BinaryOperator.equal.precedence ∧ BinaryOperator.equal.precedence < least := by
  have level : operator.precedence = BinaryOperator.equal.precedence ∧ operator.associativity ≠ .left := by
    cases operator <;> first | decide | exact absurd comparison (by decide)
  refine ⟨level.1, ?_⟩
  rcases fits.1 with less | ⟨-, isLeft⟩
  · rw [← level.1]
    exact less
  · exact absurd isLeft level.2

/-- **Two rows with an operator between are a row.** -/
theorem row_binary {operator : BinaryOperator} {least more : Nat} {first second : Doc} {left right : Expression}
    (firm : first.Firm) (one : ∀ {rest}, Stops rest → Row nested level first least left rest)
    (two : Row nested level second more right rest) (fitsLeft : FitsLeft operator least left)
    (fitsRight : FitsRight operator more right) :
    Row nested level (first.beside ((single (.operator operator.sign) operator.symbol.toList).beside second))
      operator.precedence (Settled.join operator left right) rest := by
  intro before position indented
  have flat : '\n' ∉ operator.symbol.toList := by cases operator <;> decide
  obtain ⟨sign, place, isSign, there, tokens⟩ := separates_sign (.operator operator.sign) operator.symbol.toList flat firm second indented
  obtain ⟨last, others, end_, ending, readRight, groupsRight, laterRight⟩ := two sign.line place there
  obtain ⟨start, links, line, middle, readLeft, groupsLeft, laterLeft⟩ :=
    one (stops_operator isSign ((second.shift level).tokens place ++ rest)) before position indented
  refine ⟨start, links ++ ⟨operator, last⟩ :: others, end_, middle, ?_,
    Chain.groups_binary groupsLeft groupsRight fitsLeft.1 fitsRight.1 fitsLeft.2 fitsRight.2, ?_⟩
  · rw [tokens, List.append_assoc, List.cons_append]
    exact readLeft
  intro comparing free
  have freeLeft : Unopposed least comparing := fun low => free (by have := fitsLeft.1; omega)
  obtain ⟨between, same, runLeft⟩ := laterLeft comparing freeLeft
  have notChained : Comparing.chainedWith between operator = none := by
    rw [Comparing.chainedWith]
    split
    · rename_i comparison
      have tight := tight_of_comparison comparison fitsLeft
      rw [same tight.2]
      exact free (Nat.le_of_eq tight.1)
    · rfl
  have freeRight : Unopposed more (Comparing.after between operator) := fun low =>
    after_of_loose (Nat.le_trans fitsRight.1 low) between
  obtain ⟨after, sameRight, runRight⟩ := laterRight (Comparing.after between operator) freeRight
  refine ⟨after, ?_, ?_⟩
  · intro tight
    have tightRight := Nat.le_trans (Chain.le_rightPrecedence operator) fitsRight.1
    rw [sameRight (by omega), after_of_tight tight, same (by have := fitsLeft.1; omega)]
  · intro rest_ final read
    rw [List.append_assoc, List.cons_append]
    exact runLeft (links_cons isSign notChained readRight (runRight read) line)

/-! ### Expressions as rows -/

/-- The least precedence in the row of an expression. -/
def rowPrecedence : Expression → Nat
  | .binary operator _ _ => operator.precedence
  | _ => Chain.operandPrecedence

/-- The expression has none of the forms that reach to the end of the window. -/
def isRow : Expression → Bool
  | .conditional _ _ _ | .caseOf _ _ | .lambda _ | .lambdaCall _ _ => false
  | _ => true

/-- The least precedence in the row of an operand, which may stand in brackets. -/
def operandRow (parent : BinaryOperator) (side : Associativity) (item : Expression) : Nat :=
  if Canonical.operandNeedsBrackets parent side item then Chain.operandPrecedence else rowPrecedence item

/-- What is read as an application by `<|` was written with a pipe. -/
theorem isPipeFrom_settled {item : Expression} (isPipe : Chain.IsPipeFrom (Settled.expression level item)) :
    ∃ operator left right, item = .binary operator left right ∧ operator.precedence = 6 := by
  cases item with
  | binary operator left right =>
    refine ⟨operator, left, right, rfl, ?_⟩
    rw [Settled.expression] at isPipe
    cases operator <;> first | rfl | exact isPipe.elim
  | _ => exact isPipe.elim

theorem fitsLeft_operand {operator : BinaryOperator} (item : Expression) :
    FitsLeft operator (operandRow operator .left item) (Settled.expression level item) := by
  have tightest : operator.precedence < Chain.operandPrecedence := by cases operator <;> decide
  rw [operandRow]
  constructor
  · split
    · exact .inl tightest
    · rename_i plain
      cases item with
      | binary child left right =>
        simp only [Canonical.operandNeedsBrackets, Bool.or_eq_true, decide_eq_true_eq, Bool.and_eq_true, beq_iff_eq,
          bne_iff_ne, not_or, not_and, not_not] at plain
        rw [rowPrecedence]
        by_cases same : child.precedence = operator.precedence
        · exact .inr ⟨same.symm, plain.2 same⟩
        · omega
      | _ => exact .inl tightest
  · rintro highest rfl isPipe
    obtain ⟨child, left, right, rfl, six⟩ := isPipeFrom_settled isPipe
    rw [if_neg (by simp only [Canonical.operandNeedsBrackets, six]; decide), rowPrecedence, six] at highest
    exact absurd highest (by decide)

theorem fitsRight_operand {operator : BinaryOperator} (item : Expression) :
    FitsRight operator (operandRow operator .right item) (Settled.expression level item) := by
  have tightest : Chain.rightPrecedence operator ≤ Chain.operandPrecedence := by cases operator <;> decide
  rw [operandRow]
  constructor
  · split
    · exact tightest
    · rename_i plain
      cases item with
      | binary child left right =>
        simp only [Canonical.operandNeedsBrackets, Bool.or_eq_true, decide_eq_true_eq, Bool.and_eq_true, beq_iff_eq,
          bne_iff_ne, not_or, not_and, not_not] at plain
        rw [rowPrecedence, Chain.rightPrecedence]
        by_cases same : child.precedence = operator.precedence
        · rw [plain.2 same]
          exact Nat.le_of_eq same.symm
        · split <;> omega
      | _ => exact tightest
  · rintro highest rfl isPipe
    obtain ⟨child, left, right, rfl, six⟩ := isPipeFrom_settled isPipe
    rw [if_neg (by simp only [Canonical.operandNeedsBrackets, six]; decide), rowPrecedence, six] at highest
    exact absurd highest (by decide)

/-- An operand is a row when the expression in it is one. -/
theorem row_operand (ready : Ready nested size) {parent : BinaryOperator} {side : Associativity} {item : Expression}
    (sound : item.Everywhere Sound.checks) (fits : (operand parent side item (expression item)).size ≤ size + 1)
    (row : isRow item = true → (expression item).size ≤ size + 1 →
      Row nested level (expression item) (rowPrecedence item) (Settled.expression level item) rest) :
    Row nested level (operand parent side item (expression item)) (operandRow parent side item)
      (Settled.expression level item) rest := by
  rw [operand] at fits ⊢
  rw [operandRow]
  split at fits
  · rename_i brackets
    rw [if_pos brackets, if_pos brackets]
    refine row_of_takes (operand_of_atom (takes_round ready sound ?_) rfl rfl)
    simp only [Doc.round, single, Doc.size, size_append] at fits
    omega
  · rename_i plain
    rw [if_neg plain, if_neg plain]
    refine row ?_ fits
    cases item with
    | lambdaCall _ _ => exact sound.here.elim
    | conditional _ _ _ | caseOf _ _ | lambda _ => simp [Canonical.operandNeedsBrackets] at plain
    | _ => rfl

theorem size_le_operand (parent : BinaryOperator) (side : Associativity) (item : Expression) (doc : Doc) :
    doc.size ≤ (operand parent side item doc).size := by
  rw [operand]
  split
  · simp only [Doc.round, single, Doc.size, size_append]
    omega
  · exact Nat.le_refl _

/-- **An expression without a form that reaches to the end is a row.** -/
theorem row_expression (ready : Ready nested size) {item : Expression} (sound : item.Everywhere Sound.checks)
    (isRow : isRow item = true) (fits : (expression item).size ≤ size + 1) (stops : Stops rest) :
    Row nested level (expression item) (rowPrecedence item) (Settled.expression level item) rest := by
  induction whole : (expression item).size using Nat.strongRecOn generalizing item rest with
  | ind total step =>
    cases item with
    | binary operator left right =>
      rw [everywhere_binary] at sound
      rw [expression] at whole fits ⊢
      simp only [beside, single, Doc.size, size_append] at whole fits
      have leftSize := size_le_operand operator .left left (expression left)
      have rightSize := size_le_operand operator .right right (expression right)
      have firm : (operand operator .left left (expression left)).Firm :=
        (fits_operand operator .left left (fits_expression sound.2.1)).2.firm
      have one : ∀ {rest}, Stops rest → Row nested level (operand operator .left left (expression left))
          (operandRow operator .left left) (Settled.expression level left) rest := fun stopsLeft =>
        row_operand ready sound.2.1 (by omega) fun isRow fits => step _ (by omega) sound.2.1 isRow fits stopsLeft rfl
      have two : Row nested level (operand operator .right right (expression right)) _ _ rest :=
        row_operand ready sound.2.2 (by omega) fun isRow fits => step _ (by omega) sound.2.2 isRow fits stops rfl
      rw [Settled.expression, rowPrecedence]
      exact row_binary firm one two (fitsLeft_operand left) (fitsRight_operand right)
    | conditional _ _ _ | caseOf _ _ | lambda _ | lambdaCall _ _ => simp [Written.isRow] at isRow
    | _ => exact row_of_takes (takes_single ready sound rfl fits stops)

theorem positive_rowPrecedence (item : Expression) : 0 < rowPrecedence item := by
  cases item with
  | binary operator _ _ =>
    rw [rowPrecedence]
    cases operator <;> decide
  | _ => exact (by decide : 0 < Chain.operandPrecedence)

/-- **A row that fills its window is read as its expression.** -/
theorem read_row (ready : Ready nested size) {item : Expression} (sound : item.Everywhere Sound.checks)
    (isRow : isRow item = true) (fits : (expression item).size ≤ size + 1) :
    Reads (expressionStep nested) (expression item) fun level => Settled.expression level item := by
  intro level before position indented
  have row : Row nested level _ _ _ [] := row_expression ready sound isRow fits (by simp [Stops])
  obtain ⟨first, links, line, ending, read, groups, later⟩ := row before position indented
  obtain ⟨after, -, run⟩ := later none fun _ => rfl
  rw [List.append_nil] at read
  rw [expressionStep, read]
  simp only [bind, Except.bind]
  rw [run (links_nil after line), List.append_nil]
  simp only [Window.expectEnd]
  rw [Chain.group_of_groups (positive_rowPrecedence item) groups]
  rfl

end Written

end DerwLang
