/-
**The rules for expressions, bodies and definitions.**

What an expression, a body or a definition holds that is read of a window, given the readers of what nests in it. Atoms,
arguments and operands leave the tokens that do not belong to them; all other constructs have their window to themselves.
-/

import DerwLang.Proofs.Rules.Pattern

namespace DerwLang.Grammar

variable {nested : Nested}

/-! ## Records -/

/-- A name, a colon and a value. -/
inductive RecordFieldRule (nested : Nested) (window : Window) : Field → Prop
  | field {name colon : Token} {rest : List Token} {value : Expression} (tokens : window.tokens = name :: colon :: rest)
    (isName : name.kind = .identifier) (isColon : colon.kind = .colon)
    (found : nested.expression ⟨colon.line, rest⟩ = .ok value) : RecordFieldRule nested window ⟨name.body, value⟩

theorem recordField_rule {opening : Nat} {window : Window} {field : Field}
    (read : recordField nested opening window = .ok field) : RecordFieldRule nested window field := by
  rw [recordField] at read
  split at read
  · simp at read
  · rename_i name rest tokens
    split at read
    · simp at read
    · rename_i colon value
      split at read
      · rename_i kinds
        rw [Bool.and_eq_true, beq_iff_eq, beq_iff_eq] at kinds
        obtain ⟨inner, found, read⟩ := ok_of_bind read
        obtain rfl := Except.ok.inj read
        exact .field tokens kinds.1 kinds.2 found
      · simp at read

/-- Fields, or a base and fields. -/
inductive RecordFieldsRule (nested : Nested) : List Window → RecordLiteral → Prop
  | based {name : Token} {window : Window} {more : List Window} {fields : List Field} (tokens : window.tokens = [name])
    (isName : name.kind = .identifier) (each : List.Forall₂ (RecordFieldRule nested) more fields) :
    RecordFieldsRule nested (window :: more) ⟨some name.body, fields⟩
  | plain {windows : List Window} {fields : List Field} (each : List.Forall₂ (RecordFieldRule nested) windows fields) :
    RecordFieldsRule nested windows ⟨none, fields⟩

theorem recordFields_rule {opening : Nat} {windows : List Window} {literal : RecordLiteral}
    (read : recordFields nested opening windows = .ok literal) : RecordFieldsRule nested windows literal := by
  have each : ∀ {windows : List Window} {fields : List Field}, windows.mapM (recordField nested opening) = .ok fields →
      List.Forall₂ (RecordFieldRule nested) windows fields :=
    fun all => (forall₂_of_mapM all).imp fun _ _ own => recordField_rule own
  cases windows with
  | nil =>
    obtain rfl := Except.ok.inj read
    exact .plain .nil
  | cons window more =>
    rw [recordFields] at read
    split at read
    · rename_i base lone
      obtain ⟨name, tokens, isName, rfl⟩ := tokens_of_loneName lone
      obtain ⟨fields, found, read⟩ := ok_of_bind read
      obtain rfl := Except.ok.inj read
      exact .based tokens isName (each found)
    · obtain ⟨fields, found, read⟩ := ok_of_bind read
      obtain rfl := Except.ok.inj read
      exact .plain (each found)

/-- What stands up to the closing bracket: nothing, or fields between commas. -/
inductive RecordLiteralRule (nested : Nested) (opening : Nat) (rest : List Token) : RecordLiteral → Window → Prop
  | empty {cut : Cut} (cuts : CutsAt .closeCurly rest cut) (none_ : cut.inside = []) :
    RecordLiteralRule nested opening rest ⟨none, []⟩ ⟨cut.token.line, cut.after⟩
  | fields {cut : Cut} {literal : RecordLiteral} (cuts : CutsAt .closeCurly rest cut)
    (fields : RecordFieldsRule nested (Window.splitFrom .comma 0 opening cut.inside) literal) :
    RecordLiteralRule nested opening rest literal ⟨cut.token.line, cut.after⟩

theorem recordLiteral_rule {opening : Token} {rest : List Token} {literal : RecordLiteral} {ending : Window}
    (read : recordLiteral nested opening rest = .ok (literal, ending)) :
    RecordLiteralRule nested opening.line rest literal ending := by
  rw [recordLiteral] at read
  split at read
  · simp at read
  · rename_i cut found
    have cuts := cutsAt_splitClose found
    dsimp only at read
    split at read
    · rename_i empty
      obtain ⟨rfl, rfl⟩ := Prod.mk.inj (Except.ok.inj read)
      exact .empty cuts (List.isEmpty_iff.mp empty)
    · obtain ⟨own, fields, read⟩ := ok_of_bind read
      obtain ⟨rfl, rfl⟩ := Prod.mk.inj (Except.ok.inj read)
      exact .fields cuts (recordFields_rule fields)

/-! ## Lists -/

/-- A bound of a range is a single name or number. -/
theorem token_of_rangeBound {tokens : List Token} {bound : String} (read : rangeBound tokens = .ok bound) :
    ∃ token, tokens = [token] ∧ (token.kind = .literal ∨ token.kind = .identifier) ∧ token.body = bound := by
  rw [rangeBound.eq_def] at read
  split at read
  · rename_i token
    split at read
    · rename_i kind
      rw [Bool.or_eq_true, beq_iff_eq, beq_iff_eq] at kind
      exact ⟨token, rfl, kind, Except.ok.inj read⟩
    · simp at read
  · simp at read

/-- The tokens between the brackets of a list literal. -/
def listTokens (literal : Token) : List Token :=
  Token.significant (tokenizeAt (unquote literal.body) literal.line (literal.column + 1))

/-- Nothing, a range, or items between commas. -/
inductive ListLiteralRule (nested : Nested) (tokens : List Token) : Expression → Prop
  | empty (none_ : tokens = []) : ListLiteralRule nested tokens (.list [])
  | range {cut : Cut} {first last : String} (cuts : CutsAt (.operator .range) tokens cut)
    (one : rangeBound cut.inside = .ok first) (two : rangeBound cut.after = .ok last) :
    ListLiteralRule nested tokens (.range first last)
  | items {items : List Expression} (each : List.Forall₂ (fun window item => nested.expression window = .ok item)
      (Window.splitFrom .comma 0 (lineOf tokens) tokens) items) : ListLiteralRule nested tokens (.list items)

theorem expression_of_listItem {line : Nat} {window : Window} {item : Expression}
    (read : listItem nested line window = .ok item) : nested.expression window = .ok item := by
  rw [listItem] at read
  split at read
  · simp at read
  · exact read

theorem listLiteral_rule {literal : Token} {value : Expression} (read : listLiteral nested literal = .ok value) :
    ListLiteralRule nested (listTokens literal) value := by
  rw [listLiteral] at read
  rw [listTokens]
  -- how the interior was lexed does not matter here
  generalize Token.significant (tokenizeAt (unquote literal.body) literal.line (literal.column + 1)) = tokens at read
  dsimp only at read
  split at read
  · rename_i empty
    obtain rfl := Except.ok.inj read
    exact .empty (List.isEmpty_iff.mp empty)
  · split at read
    · rename_i cut found
      obtain ⟨first, one, read⟩ := ok_of_bind read
      obtain ⟨last, two, read⟩ := ok_of_bind read
      obtain rfl := Except.ok.inj read
      exact .range (cutsAt_splitKind found) one two
    · obtain ⟨items, found, read⟩ := ok_of_bind read
      obtain rfl := Except.ok.inj read
      exact .items ((forall₂_of_mapM found).imp fun _ _ own => expression_of_listItem own)

/-! ## Atoms -/

/-- A number that a minus belongs to is a literal that starts with a digit. -/
theorem text_of_negatedNumber {minus number : Token} {text : String} (found : negatedNumber? minus number = some text) :
    number.kind = .literal ∧ number.body.toList.head?.any Char.isDigit = true ∧ text = "-" ++ number.body := by
  rw [negatedNumber?] at found
  split at found
  · rename_i directly
    simp only [Bool.and_eq_true, beq_iff_eq] at directly
    exact ⟨directly.1.1.1, directly.2, (Option.some.inj found).symm⟩
  · simp at found

/-- A literal, a text, a record, an expression in brackets, a name, a tag with its record, or a negative number. -/
inductive AtomRule (nested : Nested) (window : Window) : Expression → Window → Prop
  | list {token : Token} {rest : List Token} {items : Expression} (tokens : window.tokens = token :: rest)
    (isLiteral : token.kind = .literal) (isList : isListLiteral token = true)
    (found : ListLiteralRule nested (listTokens token) items) : AtomRule nested window items ⟨token.line, rest⟩
  | literal {token : Token} {rest : List Token} (tokens : window.tokens = token :: rest) (isLiteral : token.kind = .literal)
    (plain : isListLiteral token = false) : AtomRule nested window (.value token.body) ⟨token.line, rest⟩
  | string {token : Token} {rest : List Token} (tokens : window.tokens = token :: rest) (isString : token.kind = .string) :
    AtomRule nested window (.string (unquote token.body)) ⟨token.line, rest⟩
  | formatString {token : Token} {rest : List Token} (tokens : window.tokens = token :: rest)
    (isFormatString : token.kind = .formatString) :
    AtomRule nested window (.formatString (unquote token.body)) ⟨token.line, rest⟩
  | brackets {token : Token} {rest : List Token} {cut : Cut} {inner : Expression} (tokens : window.tokens = token :: rest)
    (opens : token.kind = .openBracket) (cuts : CutsAt .closeBracket rest cut)
    (found : nested.expression ⟨token.line, cut.inside⟩ = .ok inner) :
    AtomRule nested window inner ⟨cut.token.line, cut.after⟩
  | record {token : Token} {rest : List Token} {literal : RecordLiteral} {ending : Window}
    (tokens : window.tokens = token :: rest) (opens : token.kind = .openCurly)
    (found : RecordLiteralRule nested token.line rest literal ending) : AtomRule nested window (.record literal) ending
  | name {token : Token} {rest : List Token} (tokens : window.tokens = token :: rest) (isName : token.kind = .identifier) :
    AtomRule nested window (reference token.body []) ⟨token.line, rest⟩
  | tagged {token next : Token} {more : List Token} {literal : RecordLiteral} {ending : Window}
    (tokens : window.tokens = token :: next :: more) (isName : token.kind = .identifier)
    (capital : Text.isCapitalised token.body = true) (dotless : Text.hasChar token.body '.' = false)
    (opens : next.kind = .openCurly) (found : RecordLiteralRule nested next.line more literal ending) :
    AtomRule nested window (.construct token.body literal) ending
  | negative {minus number : Token} {more : List Token} (tokens : window.tokens = minus :: number :: more)
    (isMinus : minus.kind = .operator .minus) (isNumber : number.kind = .literal)
    (digit : number.body.toList.head?.any Char.isDigit = true) :
    AtomRule nested window (.value ("-" ++ number.body)) ⟨number.line, more⟩

theorem atom_rule {window ending : Window} {value : Expression} (read : atom nested window = .ok (value, ending)) :
    AtomRule nested window value ending := by
  rw [atom] at read
  split at read
  · simp [Window.error] at read
  · rename_i token rest tokens
    dsimp only at read
    split at read
    case h_1 isLiteral =>
      split at read
      · rename_i isList
        obtain ⟨items, found, read⟩ := ok_of_bind read
        obtain ⟨rfl, rfl⟩ := Prod.mk.inj (Except.ok.inj read)
        exact .list tokens isLiteral isList (listLiteral_rule found)
      · rename_i plain
        obtain ⟨rfl, rfl⟩ := Prod.mk.inj (Except.ok.inj read)
        exact .literal tokens isLiteral (Bool.eq_false_iff.mpr plain)
    case h_2 isString =>
      obtain ⟨rfl, rfl⟩ := Prod.mk.inj (Except.ok.inj read)
      exact .string tokens isString
    case h_3 isFormatString =>
      obtain ⟨rfl, rfl⟩ := Prod.mk.inj (Except.ok.inj read)
      exact .formatString tokens isFormatString
    case h_4 opens =>
      split at read
      · simp at read
      · rename_i cut found
        obtain ⟨inner, own, read⟩ := ok_of_bind read
        obtain ⟨rfl, rfl⟩ := Prod.mk.inj (Except.ok.inj read)
        exact .brackets tokens opens (cutsAt_splitClose found) own
    case h_5 opens =>
      obtain ⟨⟨literal, final⟩, found, read⟩ := ok_of_bind read
      obtain ⟨rfl, rfl⟩ := Prod.mk.inj (Except.ok.inj read)
      exact .record tokens opens (recordLiteral_rule found)
    case h_6 isName =>
      split at read
      · obtain ⟨rfl, rfl⟩ := Prod.mk.inj (Except.ok.inj read)
        exact .name tokens isName
      · rename_i next more
        split at read
        · rename_i isTag
          simp only [Bool.and_eq_true, Bool.not_eq_true', beq_iff_eq] at isTag
          obtain ⟨⟨literal, final⟩, found, read⟩ := ok_of_bind read
          obtain ⟨rfl, rfl⟩ := Prod.mk.inj (Except.ok.inj read)
          exact .tagged tokens isName isTag.1.1 isTag.1.2 isTag.2 (recordLiteral_rule found)
        · obtain ⟨rfl, rfl⟩ := Prod.mk.inj (Except.ok.inj read)
          exact .name tokens isName
    case h_7 isMinus =>
      split at read
      · simp at read
      · rename_i number more
        split at read
        · rename_i text found
          obtain ⟨isNumber, digit, rfl⟩ := text_of_negatedNumber found
          obtain ⟨rfl, rfl⟩ := Prod.mk.inj (Except.ok.inj read)
          exact .negative tokens isMinus isNumber digit
        · simp at read
    case h_8 => simp at read
    case h_9 => simp at read

/-- Atoms one after the other. -/
inductive ArgumentsRule (nested : Nested) : Window → List Expression → Window → Prop
  | nil {window : Window} : ArgumentsRule nested window [] window
  | cons {window middle ending : Window} {first : Expression} {others : List Expression}
    (found : AtomRule nested window first middle) (later : ArgumentsRule nested middle others ending) :
    ArgumentsRule nested window (first :: others) ending

theorem arguments_rule {window ending : Window} {values : List Expression}
    (read : arguments nested window = .ok (values, ending)) : ArgumentsRule nested window values ending := by
  fun_induction arguments nested window generalizing values ending with
  | case1 => simp at read
  | case2 window _ first after found step =>
    obtain ⟨⟨others, final⟩, later, read⟩ := ok_of_bind read
    obtain ⟨rfl, rfl⟩ := Prod.mk.inj (Except.ok.inj read)
    exact .cons (atom_rule found) (step later)
  | case3 =>
    obtain ⟨rfl, rfl⟩ := Prod.mk.inj (Except.ok.inj read)
    exact .nil

/-! ## Constructs -/

/-- An expression, `then`, a body, `else` and a body. -/
inductive ConditionalRule (nested : Nested) (window : Window) : Expression → Prop
  | conditional {predicate yes : Cut} {test : Expression} {whenTrue whenFalse : Body}
    (then_ : CutsAt (.keyword .thenWord) window.tokens predicate) (else_ : CutsAt (.keyword .elseWord) predicate.after yes)
    (one : nested.expression ⟨window.before, predicate.inside⟩ = .ok test)
    (two : nested.body ⟨predicate.token.line, yes.inside⟩ = .ok whenTrue)
    (three : nested.body ⟨yes.token.line, yes.after⟩ = .ok whenFalse) :
    ConditionalRule nested window (.conditional test whenTrue whenFalse)

theorem conditional_rule {window : Window} {value : Expression} (read : conditional nested window = .ok value) :
    ConditionalRule nested window value := by
  rw [conditional] at read
  split at read
  · simp [Window.error] at read
  · rename_i predicate then_
    split at read
    · simp [Window.error] at read
    · rename_i yes else_
      obtain ⟨test, one, read⟩ := ok_of_bind read
      obtain ⟨whenTrue, two, read⟩ := ok_of_bind read
      obtain ⟨whenFalse, three, read⟩ := ok_of_bind read
      obtain rfl := Except.ok.inj read
      exact .conditional (cutsAt_splitKeyword then_) (cutsAt_splitKeyword else_) one two three

/-- A pattern, an arrow and a body. -/
inductive BranchRule (nested : Nested) (window : Window) : Branch → Prop
  | branch {cut : Cut} {shape : Pattern} {body : Body} (cuts : CutsAt .arrow window.tokens cut)
    (one : pattern ⟨window.before, cut.inside⟩ = .ok shape) (two : nested.body ⟨cut.token.line, cut.after⟩ = .ok body) :
    BranchRule nested window ⟨shape, body⟩

theorem branch_rule {window : Window} {value : Branch} (read : branch nested window = .ok value) :
    BranchRule nested window value := by
  rw [branch] at read
  split at read
  · simp [Window.error] at read
  · rename_i cut found
    obtain ⟨shape, one, read⟩ := ok_of_bind read
    obtain ⟨result, two, read⟩ := ok_of_bind read
    obtain rfl := Except.ok.inj read
    exact .branch (cutsAt_splitKind found) one two

/-- Branches, each from the start of a line. -/
inductive BranchesRule (nested : Nested) (window : Window) : List Branch → Prop
  | branches {first : Token} {rest : List Token} {values : List Branch} (tokens : window.tokens = first :: rest)
    (each : List.Forall₂ (BranchRule nested) (Window.splitStarts first.column window.before first rest) values) :
    BranchesRule nested window values

theorem branches_rule {window : Window} {values : List Branch} (read : branches nested window = .ok values) :
    BranchesRule nested window values := by
  rw [branches] at read
  split at read
  · simp [Window.error] at read
  · rename_i first rest tokens
    exact .branches tokens ((forall₂_of_mapM read).imp fun _ _ own => branch_rule own)

/-- An expression, `of` and branches. -/
inductive CaseRule (nested : Nested) (window : Window) : Expression → Prop
  | caseOf {cut : Cut} {predicate : Expression} {cases_ : List Branch} (cuts : CutsAt (.keyword .ofWord) window.tokens cut)
    (one : nested.expression ⟨window.before, cut.inside⟩ = .ok predicate)
    (two : BranchesRule nested ⟨cut.token.line, cut.after⟩ cases_) : CaseRule nested window (.caseOf predicate cases_)

theorem caseOf_rule {window : Window} {value : Expression} (read : caseOf nested window = .ok value) :
    CaseRule nested window value := by
  rw [caseOf] at read
  split at read
  · simp [Window.error] at read
  · rename_i cut found
    obtain ⟨predicate, one, read⟩ := ok_of_bind read
    obtain ⟨cases_, two, read⟩ := ok_of_bind read
    obtain rfl := Except.ok.inj read
    exact .caseOf (cutsAt_splitKeyword found) one (branches_rule two)

/-- Names, an arrow and an expression. -/
inductive LambdaRule (nested : Nested) (window : Window) : Lambda → Prop
  | lambda {own : List Token} {arrow : Token} {ending : Window} {body : Expression}
    (tokens : window.tokens = own ++ arrow :: ending.tokens) (some_ : own ≠ [])
    (areNames : ∀ token ∈ own, token.kind = .identifier) (isArrow : arrow.kind = .arrow)
    (found : nested.expression ending = .ok body) : LambdaRule nested window ⟨own.map Token.body, body⟩

theorem lambda_rule {window : Window} {value : Lambda} (read : lambda nested window = .ok value) :
    LambdaRule nested window value := by
  rw [lambda] at read
  split at read
  · simp [Window.error] at read
  · rename_i parameters rest some_ taken
    obtain ⟨own, whole, rfl, areNames⟩ := tokens_of_namesFrom taken
    obtain ⟨⟨arrow, final⟩, expected, read⟩ := ok_of_bind read
    obtain ⟨tokens, isArrow⟩ := tokens_of_expect expected
    obtain ⟨result, found, read⟩ := ok_of_bind read
    obtain rfl := Except.ok.inj read
    exact .lambda (by rw [whole, tokens]) (by rintro rfl; exact some_ rfl) areNames isArrow found

/-! ## Operands and chains -/

/-- A construct up to the end of the window, a name with its arguments, or an atom. -/
inductive OperandRule (nested : Nested) (window : Window) : Expression → Window → Prop
  | conditional {token : Token} {rest : List Token} {value : Expression} (tokens : window.tokens = token :: rest)
    (isIf : token.kind = .keyword .ifWord) (found : ConditionalRule nested ⟨token.line, rest⟩ value) :
    OperandRule nested window value window.finished
  | caseOf {token : Token} {rest : List Token} {value : Expression} (tokens : window.tokens = token :: rest)
    (isCase : token.kind = .keyword .caseWord) (found : CaseRule nested ⟨token.line, rest⟩ value) :
    OperandRule nested window value window.finished
  | lambda {token : Token} {rest : List Token} {value : Lambda} (tokens : window.tokens = token :: rest)
    (isBackslash : token.kind = .backslash) (found : LambdaRule nested ⟨token.line, rest⟩ value) :
    OperandRule nested window (.lambda value) window.finished
  | application {token : Token} {rest : List Token} {values : List Expression} {ending : Window}
    (tokens : window.tokens = token :: rest) (isName : token.kind = .identifier)
    (noTag : Text.isCapitalised token.body = true → Text.hasChar token.body '.' = true)
    (found : ArgumentsRule nested ⟨token.line, rest⟩ values ending) :
    OperandRule nested window (reference token.body values) ending
  | atom {value : Expression} {ending : Window} (found : AtomRule nested window value ending) :
    OperandRule nested window value ending

theorem operand_rule {window ending : Window} {value : Expression} (read : operand nested window = .ok (value, ending)) :
    OperandRule nested window value ending := by
  rw [operand] at read
  split at read
  · simp [Window.error] at read
  · rename_i token rest tokens
    dsimp only at read
    split at read
    case h_1 isIf =>
      obtain ⟨whole, found, read⟩ := ok_of_bind read
      obtain ⟨rfl, rfl⟩ := Prod.mk.inj (Except.ok.inj read)
      exact .conditional tokens isIf (conditional_rule found)
    case h_2 isCase =>
      obtain ⟨whole, found, read⟩ := ok_of_bind read
      obtain ⟨rfl, rfl⟩ := Prod.mk.inj (Except.ok.inj read)
      exact .caseOf tokens isCase (caseOf_rule found)
    case h_3 isBackslash =>
      obtain ⟨whole, found, read⟩ := ok_of_bind read
      obtain ⟨rfl, rfl⟩ := Prod.mk.inj (Except.ok.inj read)
      exact .lambda tokens isBackslash (lambda_rule found)
    case h_4 isName =>
      split at read
      · exact .atom (atom_rule read)
      · rename_i noTag
        obtain ⟨⟨values, final⟩, found, read⟩ := ok_of_bind read
        obtain ⟨rfl, rfl⟩ := Prod.mk.inj (Except.ok.inj read)
        exact .application tokens isName (fun capital => by simpa [capital] using noTag) (arguments_rule found)
    case h_5 => exact .atom (atom_rule read)

/-- Operators, each with its operand. -/
inductive LinksRule (nested : Nested) : Window → List Link → Window → Prop
  | nil {window : Window} : LinksRule nested window [] window
  | cons {window middle ending : Window} {token : Token} {rest : List Token} {operator : BinaryOperator}
    {operand : Expression} {others : List Link} (tokens : window.tokens = token :: rest)
    (isOperator : BinaryOperator.ofKind? token.kind = some operator)
    (found : OperandRule nested ⟨token.line, rest⟩ operand middle) (later : LinksRule nested middle others ending) :
    LinksRule nested window (⟨operator, operand⟩ :: others) ending

theorem links_rule {comparing : Comparing} {window ending : Window} {values : List Link}
    (read : links nested comparing window = .ok (values, ending)) : LinksRule nested window values ending := by
  fun_induction links nested comparing window generalizing values ending with
  | case1 =>
    obtain ⟨rfl, rfl⟩ := Prod.mk.inj (Except.ok.inj read)
    exact .nil
  | case2 =>
    obtain ⟨rfl, rfl⟩ := Prod.mk.inj (Except.ok.inj read)
    exact .nil
  | case3 => simp [Window.error] at read
  | case4 => simp at read
  | case5 comparing window token rest tokens operator isOperator _ operand after found step =>
    obtain ⟨⟨others, final⟩, later, read⟩ := ok_of_bind read
    obtain ⟨rfl, rfl⟩ := Prod.mk.inj (Except.ok.inj read)
    exact .cons tokens isOperator (operand_rule found) (step later)

/-- An operand and what is linked to it, to the end of the window. -/
inductive ChainRule (nested : Nested) (window : Window) : Expression → Prop
  | chain {middle ending : Window} {first : Expression} {others : List Link} (one : OperandRule nested window first middle)
    (two : LinksRule nested middle others ending) (ended : ending.tokens = []) :
    ChainRule nested window (Chain.group first others)

theorem expressionStep_rule {window : Window} {value : Expression} (read : expressionStep nested window = .ok value) :
    ChainRule nested window value := by
  rw [expressionStep] at read
  obtain ⟨⟨first, ending⟩, one, read⟩ := ok_of_bind read
  obtain ⟨⟨others, final⟩, two, read⟩ := ok_of_bind read
  obtain ⟨_, ended, read⟩ := ok_of_bind read
  obtain rfl := Except.ok.inj read
  exact .chain (operand_rule one) (links_rule two) (tokens_of_expectEnd ended)

/-! ## Definitions and bodies -/

/-- No signature, or one up to the name that it announces. -/
inductive SignatureRule (window : Window) : Option (List Ty) → Window → Prop
  | none : SignatureRule window none window
  | some {colon : Token} {rest : List Token} {cut : Cut} {types : List Ty} (tokens : window.tokens = colon :: rest)
    (isColon : colon.kind = .colon) (cuts : CutsAt .identifier rest cut) (found : signature cut.inside = .ok types) :
    SignatureRule window (some types) ⟨cut.token.line, cut.after⟩

theorem optionalSignature_rule {name : Token} {window ending : Window} {types? : Option (List Ty)}
    (read : optionalSignature name window = .ok (types?, ending)) : SignatureRule window types? ending := by
  rw [optionalSignature] at read
  split at read
  · obtain ⟨rfl, rfl⟩ := Prod.mk.inj (Except.ok.inj read)
    exact .none
  · rename_i colon rest tokens
    split at read
    · rename_i isColon
      split at read
      · simp at read
      · rename_i cut found
        obtain ⟨types, own, read⟩ := ok_of_bind read
        obtain ⟨rfl, rfl⟩ := Prod.mk.inj (Except.ok.inj read)
        exact .some tokens (beq_iff_eq.mp isColon) (cutsAt_splitDefinition found) own
    · obtain ⟨rfl, rfl⟩ := Prod.mk.inj (Except.ok.inj read)
      exact .none

/-- The names of arguments, an assignment and a body. -/
inductive ArgumentNamesRule (body : Window → Parsed Body) (window : Window) : List String → Body → Prop
  | names {own : List Token} {sign : Token} {ending : Window} {result : Body}
    (tokens : window.tokens = own ++ sign :: ending.tokens) (areNames : ∀ token ∈ own, token.kind = .identifier)
    (assigns : sign.kind = .assign) (found : body ending = .ok result) :
    ArgumentNamesRule body window (own.map Token.body) result

/-- What is defined, perhaps after a signature. -/
inductive DefinitionRule (body : Window → Parsed Body) (name : Token) (window : Window) : Block → Prop
  | untyped {rest : Window} {names : List String} {result : Body} (announced : SignatureRule window none rest)
    (defined : ArgumentNamesRule body rest names result) :
    DefinitionRule body name window (untyped name.body names result)
  | typed {types : List Ty} {rest : Window} {names : List String} {result : Body} {value : Block}
    (announced : SignatureRule window (some types) rest) (defined : ArgumentNamesRule body rest names result)
    (made : typed name.body name.line types names result = .ok value) : DefinitionRule body name window value

theorem definition_rule {body : Window → Parsed Body} {name : Token} {window : Window} {value : Block}
    (read : definition body name window = .ok value) : DefinitionRule body name window value := by
  rw [definition] at read
  obtain ⟨⟨types?, rest⟩, announced, read⟩ := ok_of_bind read
  obtain ⟨own, whole, names, areNames⟩ := tokens_of_takeNames rest
  obtain ⟨⟨sign, next⟩, signed, read⟩ := ok_of_bind read
  obtain ⟨tokens, assigns⟩ := tokens_of_expect signed
  obtain ⟨result, found, read⟩ := ok_of_bind read
  have defined : ArgumentNamesRule body rest rest.takeNames.1 result := by
    rw [← names]
    exact .names (whole.trans (congrArg (own ++ ·) tokens)) areNames assigns found
  have announced := optionalSignature_rule announced
  cases types? with
  | none =>
    obtain rfl := Except.ok.inj read
    exact .untyped announced defined
  | some types => exact .typed announced defined read

/-- A declaration that its first token tells the kind of. -/
inductive BlockRule (body : Window → Parsed Body) (window : Window) : Block → Prop
  | importing {token : Token} {rest : List Token} {value : Block} (tokens : window.tokens = token :: rest)
    (found : importing token ⟨token.line, rest⟩ = .ok value) : BlockRule body window value
  | exposing {token : Token} {rest : List Token} {value : Block} (tokens : window.tokens = token :: rest)
    (found : exposing ⟨token.line, rest⟩ = .ok value) : BlockRule body window value
  | typeAlias {token next : Token} {rest : List Token} {value : Block} (tokens : window.tokens = token :: next :: rest)
    (found : typeAlias ⟨next.line, rest⟩ = .ok value) : BlockRule body window value
  | unionType {token : Token} {rest : List Token} {value : Block} (tokens : window.tokens = token :: rest)
    (found : unionType ⟨token.line, rest⟩ = .ok value) : BlockRule body window value
  | definition {token : Token} {rest : List Token} {value : Block} (tokens : window.tokens = token :: rest)
    (isName : token.kind = .identifier) (found : DefinitionRule body token ⟨token.line, rest⟩ value) :
    BlockRule body window value

theorem block_rule {body : Window → Parsed Body} {window : Window} {value : Block}
    (read : blockWith body window = .ok value) : BlockRule body window value := by
  rw [blockWith] at read
  split at read
  · simp [Window.error] at read
  · rename_i token rest tokens
    dsimp only at read
    split at read
    case h_1 => exact .importing tokens read
    case h_2 => exact .exposing tokens read
    case h_3 =>
      split at read
      · rename_i isAlias
        cases rest with
        | nil => simp [Window.nextKind] at isAlias
        | cons next more => exact .typeAlias tokens read
      · exact .unionType tokens read
    case h_4 isName => exact .definition tokens isName (definition_rule read)
    case h_5 => simp [Window.error] at read
    case h_6 => simp [Window.error] at read

theorem isDefinition_of_importing {start : Token} {window : Window} {value : Block} (read : importing start window = .ok value) :
    isDefinition value = false := by
  rw [importing] at read
  obtain ⟨⟨name, origin, rest⟩, -, read⟩ := ok_of_bind read
  obtain ⟨⟨alias?, rest⟩, -, read⟩ := ok_of_bind read
  obtain ⟨⟨names, rest⟩, -, read⟩ := ok_of_bind read
  obtain ⟨_, -, read⟩ := ok_of_bind read
  obtain rfl := Except.ok.inj read
  rfl

theorem isDefinition_of_exposing {window : Window} {value : Block} (read : exposing window = .ok value) :
    isDefinition value = false := by
  rw [exposing] at read
  obtain ⟨⟨names, rest⟩, -, read⟩ := ok_of_bind read
  obtain ⟨_, -, read⟩ := ok_of_bind read
  obtain rfl := Except.ok.inj read
  rfl

theorem isDefinition_of_typeAlias {window : Window} {value : Block} (read : typeAlias window = .ok value) :
    isDefinition value = false := by
  rw [typeAlias] at read
  obtain ⟨⟨name, rest⟩, -, read⟩ := ok_of_bind read
  obtain ⟨⟨sign, next⟩, -, read⟩ := ok_of_bind read
  obtain ⟨⟨properties, final⟩, -, read⟩ := ok_of_bind read
  obtain ⟨_, -, read⟩ := ok_of_bind read
  obtain rfl := Except.ok.inj read
  rfl

theorem isDefinition_of_unionType {window : Window} {value : Block} (read : unionType window = .ok value) :
    isDefinition value = false := by
  rw [unionType] at read
  obtain ⟨⟨name, rest⟩, -, read⟩ := ok_of_bind read
  obtain ⟨⟨sign, next⟩, -, read⟩ := ok_of_bind read
  obtain ⟨⟨declared, final⟩, -, read⟩ := ok_of_bind read
  obtain ⟨_, -, read⟩ := ok_of_bind read
  obtain rfl := Except.ok.inj read
  rfl

/-- The declarations that a `let` may hold are those that start with a name. -/
theorem BlockRule.definition_of_isDefinition {body : Window → Parsed Body} {window : Window} {value : Block}
    (rule : BlockRule body window value) (defines : isDefinition value = true) :
    ∃ name rest, window.tokens = name :: rest ∧ name.kind = .identifier ∧
      DefinitionRule body name ⟨name.line, rest⟩ value := by
  cases rule with
  | importing _ found => simp [isDefinition_of_importing found] at defines
  | exposing _ found => simp [isDefinition_of_exposing found] at defines
  | typeAlias _ found => simp [isDefinition_of_typeAlias found] at defines
  | unionType _ found => simp [isDefinition_of_unionType found] at defines
  | definition tokens isName found => exact ⟨_, _, tokens, isName, found⟩

/-- Some definitions, each of them a declaration of its own. -/
inductive LocalsRule (body : Window → Parsed Body) (window : Window) : List Block → Prop
  | locals {values : List Block} (some_ : window.tokens ≠ [])
    (each : List.Forall₂ (fun part value => BlockRule body part value ∧ isDefinition value = true)
      (splitBlocks window) values) : LocalsRule body window values

theorem localDefinitions_rule {body : Window → Parsed Body} {window : Window} {values : List Block}
    (read : localDefinitions body window = .ok values) : LocalsRule body window values := by
  have each : ∀ part value, localDefinition body part = .ok value →
      BlockRule body part value ∧ isDefinition value = true := by
    intro part value own
    rw [localDefinition] at own
    obtain ⟨declared, found, own⟩ := ok_of_bind own
    split at own
    · rename_i defines
      obtain rfl := Except.ok.inj own
      exact ⟨block_rule found, defines⟩
    · simp [Window.error] at own
  rw [localDefinitions] at read
  split at read
  · simp [Window.error] at read
  · rename_i some_
    exact .locals (by simpa using some_) ((forall₂_of_mapM read).imp each)

/-- Definitions between `let` and `in` before an expression, or an expression alone. -/
inductive BodyRule (nested : Nested) (window : Window) : Body → Prop
  | letIn {token : Token} {rest : List Token} {cut : Cut} {locals : List Block} {result : Expression}
    (tokens : window.tokens = token :: rest) (isLet : token.kind = .keyword .letWord)
    (cuts : CutsAt (.keyword .inWord) rest cut) (one : LocalsRule nested.body ⟨token.line, cut.inside⟩ locals)
    (two : nested.expression ⟨cut.token.line, cut.after⟩ = .ok result) : BodyRule nested window ⟨locals, result⟩
  | plain {result : Expression} (found : ChainRule nested window result) : BodyRule nested window ⟨[], result⟩

theorem bodyStep_rule {window : Window} {value : Body} (read : bodyStep nested window = .ok value) :
    BodyRule nested window value := by
  rw [bodyStep] at read
  split at read
  · simp [Window.error] at read
  · rename_i token rest tokens
    split at read
    · rename_i isLet
      split at read
      · simp [Window.error] at read
      · rename_i cut found
        obtain ⟨locals, one, read⟩ := ok_of_bind read
        obtain ⟨result, two, read⟩ := ok_of_bind read
        obtain rfl := Except.ok.inj read
        exact .letIn tokens (beq_iff_eq.mp isLet) (cutsAt_splitKeyword found) (localDefinitions_rule one) two
    · obtain ⟨result, found, read⟩ := ok_of_bind read
      obtain rfl := Except.ok.inj read
      exact .plain (expressionStep_rule found)

end DerwLang.Grammar
