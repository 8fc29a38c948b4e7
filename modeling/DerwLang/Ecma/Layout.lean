/-
**How terms and statements are written.**

Terms become text, and statements lines, with the bodies of blocks one level in. An operand stands in brackets
when it binds looser than its operator, or as loosely on the right: all operators group on the left. A field
whose value is its own name is written once, and a record with several entries has a line for each.
-/

import DerwLang.Ecma.Syntax
import DerwLang.Text.Layout

namespace DerwLang.Ecma

/-! ## Operators -/

/-- How an operator is written. -/
def symbol : BinaryOperator → String
  | .equal => "==="
  | .notEqual => "!=="
  | operator => operator.symbol

/-- How tightly a negated number binds. -/
def unaryPrecedence : Nat := 9

/-- How tightly a term binds that is no operation. -/
def atomPrecedence : Nat := 10

/-- How tightly an operator binds. -/
def precedence : BinaryOperator → Nat
  | .or => 1
  | .and => 2
  | .equal | .notEqual => 3
  | .less | .lessEqual | .greater | .greaterEqual => 4
  | .add | .subtract => 5
  | .multiply | .divide => 6
  | .prepend | .pipeInto | .pipeFrom => atomPrecedence

/-- How tightly a term binds. -/
def Term.precedence : Term → Nat
  | .operation operator _ _ => Ecma.precedence operator
  | .conditional _ _ _ | .function _ _ => 0
  | .verbatim text => if Text.startsWith text "-" then unaryPrecedence else atomPrecedence
  | _ => atomPrecedence

/-- The text of an operand of something that binds so tightly. -/
def operandText (parent : Nat) (onRight : Bool) (operand : Term) (text : String) : String :=
  if operand.precedence < parent || (onRight && operand.precedence == parent) then
    Text.parenthesised text
  else text

/-- The text of a branch of a conditional. A conditional within it stands in brackets, unless it starts with a
function. -/
def branchText (branch : Term) (text : String) : String :=
  match branch with
  | .conditional _ _ _ =>
    if Text.startsWith text "(function" then text else "( " ++ text ++ " )"
  | _ => text

/-! ## Conditions and labels -/

/-- A comparison of an element. -/
def ElementTest.text (test : ElementTest) : String :=
  match test.anchor with
  | .tag name => test.subject ++ ".kind === " ++ Text.quoted name
  | .quoted text => test.subject ++ " === " ++ Text.quoted text
  | .template text => test.subject ++ " === " ++ Text.backquoted text

/-- A condition. -/
def Condition.text : Condition → String
  | .lengthIs list length => list ++ ".length === " ++ toString length
  | .lengthAtLeast list length => list ++ ".length >= " ++ toString length
  | .notEmpty list => list ++ ".length > 0"
  | .isFound index => index ++ " > -1"
  | .elements tests => String.intercalate " && " (tests.map ElementTest.text)

/-- What a switch compares its labels with. -/
def Subject.text : Subject → String
  | .value name => name
  | .lengthOf name => name ++ ".length"
  | .kindOf name => name ++ ".kind"

/-- A label with its colon. -/
def Label.text : Label → String
  | .quoted text => "case " ++ Text.quoted text ++ ":"
  | .template text => "case " ++ Text.backquoted text ++ ":"
  | .zero => "case 0:"
  | .lengthOf name => "case " ++ name ++ ".length:"
  | .otherwise => "default:"

/-! ## Lines -/

/-- The lines of one statement. -/
def statementLines (text : String) : List String :=
  (Text.lines text).map Text.settleLine

/-- A head, a body in curly brackets one level in, and the closing bracket. -/
def blockLines (head : String) (body : List String) : List String :=
  Text.settleLine (head ++ " \x7b") :: body.map Text.indentLine ++ ["\x7d"]

/-- A body under a condition. -/
def guardedLines (condition : String) (body : List String) : List String :=
  blockLines ("if " ++ Text.parenthesised condition) body

/-- Two bodies, of which a condition chooses one. -/
def chooseLines (condition : String) (whenTrue whenFalse : List String) : List String :=
  Text.settleLine ("if " ++ Text.parenthesised condition ++ " \x7b") ::
    whenTrue.map Text.indentLine ++ ["\x7d else \x7b"] ++ whenFalse.map Text.indentLine ++ ["\x7d"]

/-- The search for the first element that passes a test. -/
def searchLines (dialect : Dialect) (found cursor list : String) (anchor : Anchor) : List String :=
  let type := if dialect.typed then ": number" else ""
  statementLines ("let " ++ found ++ type ++ " = -1;") ++
    blockLines ("for (let " ++ cursor ++ " = 0; " ++ cursor ++ " < " ++ list ++ ".length; " ++ cursor ++ "++)")
      (guardedLines (ElementTest.text ⟨list ++ "[" ++ cursor ++ "]", anchor⟩)
        (statementLines (found ++ " = " ++ cursor ++ ";") ++ statementLines "break;"))

/-- The pattern that takes the first elements of a list. -/
def elementsPattern (names : List String) (rest : Option String) : String :=
  "[ " ++ Text.commaSeparated (names ++ (rest.map ("..." ++ ·)).toList) ++ " ]"

/-! ## Records and functions -/

/-- One entry of a record. -/
def entryText (name value : String) : String :=
  if value == name then name else name ++ ": " ++ value

/-- A record from its entries. -/
def recordText : List String → String
  | [] => "\x7b \x7d"
  | [entry] => Text.braced entry
  | entries =>
    "\x7b\n" ++
      String.intercalate ",\n" (entries.map fun entry => Text.indentation ++ Text.indentTail entry) ++
      "\n\x7d"

/-- The head of a function without a name. -/
def functionHead (dialect : Dialect) (parameters : List String) : String :=
  let annotated := if dialect.typed then parameters.map (· ++ ": any") else parameters
  "function" ++ Text.parenthesised (Text.commaSeparated annotated)

/-- A function from its head and the lines of its body. -/
def functionText (head : String) (body : List String) : String :=
  Text.unlines (blockLines head body)

/-- Statements that are run where a term is needed, from their lines. -/
def immediateText (dialect : Dialect) (body : List String) : String :=
  functionText (if dialect.typed then "(function (): any" else "(function ()") body ++ ")()"

/-! ## Terms and statements -/

mutual

/-- The text of a term. -/
def Term.text (dialect : Dialect) : Term → String
  | .verbatim text => text
  | .quoted text => Text.quoted text
  | .template text => Text.backquoted text
  | .array [] => "[ ]"
  | .array (item :: items) => "[ " ++ Text.commaSeparated (Term.texts dialect (item :: items)) ++ " ]"
  | .span first last =>
    "Array.from(\x7b length: " ++ last ++ " - " ++ first ++ " + 1 \x7d, (_x, i) => i + " ++ first ++ ")"
  | .record base fields =>
    recordText ((base.map ("..." ++ ·)).toList ++ Term.entries dialect fields)
  | .conditional test whenTrue whenFalse =>
    operandText 1 false test (test.text dialect) ++ " ? " ++
      branchText whenTrue (whenTrue.text dialect) ++ " : " ++
      branchText whenFalse (whenFalse.text dialect)
  | .operation operator left right =>
    operandText (Ecma.precedence operator) false left (left.text dialect) ++ " " ++ symbol operator ++ " " ++
      operandText (Ecma.precedence operator) true right (right.text dialect)
  | .prepend head tail =>
    "[ " ++ head.text dialect ++ ", ..." ++
      operandText unaryPrecedence false tail (tail.text dialect) ++ " ]"
  | .call name arguments =>
    name ++ Text.parenthesised (Text.commaSeparated (Term.texts dialect arguments))
  | .application function argument =>
    Text.parenthesised (function.text dialect) ++ Text.parenthesised (argument.text dialect)
  | .function parameters body =>
    functionText (functionHead dialect parameters) (Statement.linesOfEach dialect body)
  | .functionCall parameters body arguments =>
    Text.parenthesised
      (functionText (functionHead dialect parameters) (Statement.linesOfEach dialect body)) ++
      Text.parenthesised (Text.commaSeparated (Term.texts dialect arguments))
  | .construct tag base fields =>
    tag ++ Text.parenthesised
      (recordText ((base.map ("..." ++ ·)).toList ++ Term.entries dialect fields))
  | .member path value => String.intercalate "." path ++ "." ++ value.text dialect
  | .immediate body => immediateText dialect (Statement.linesOfEach dialect body)

/-- The texts of terms. -/
def Term.texts (dialect : Dialect) : List Term → List String
  | [] => []
  | item :: rest => item.text dialect :: Term.texts dialect rest

/-- The entries of a record. -/
def Term.entries (dialect : Dialect) : List TermField → List String
  | [] => []
  | ⟨name, value⟩ :: rest => entryText name (value.text dialect) :: Term.entries dialect rest

/-- The lines of a statement. -/
def Statement.lines (dialect : Dialect) : Statement → List String
  | .returning value => statementLines ("return " ++ value.text dialect ++ ";")
  | .declaring declaration => statementLines (declaration.text dialect)
  | .temporary name value => statementLines ("const " ++ name ++ " = " ++ value.text dialect ++ ";")
  | .bindName name list => statementLines ("const " ++ name ++ " = " ++ list ++ ";")
  | .bindElements names rest list =>
    statementLines ("const " ++ elementsPattern names rest ++ " = " ++ list ++ ";")
  | .bindFields names subject =>
    statementLines ("const " ++ Text.braced (Text.commaSeparated names) ++ " = " ++ subject ++ ";")
  | .bindElementAt name list index =>
    statementLines ("const " ++ name ++ " = " ++ list ++ "[" ++ index ++ "];")
  | .bindBefore name list index =>
    statementLines ("const " ++ name ++ " = " ++ list ++ ".slice(0, " ++ index ++ ");")
  | .bindAfter name list index =>
    statementLines ("const " ++ name ++ " = " ++ list ++ ".slice(" ++ index ++ " + 1);")
  | .search found cursor list anchor => searchLines dialect found cursor list anchor
  | .guarded condition body => guardedLines condition.text (Statement.linesOfEach dialect body)
  | .choose test whenTrue whenFalse =>
    chooseLines (test.text dialect) (Statement.linesOfEach dialect whenTrue)
      (Statement.linesOfEach dialect whenFalse)
  | .switch subject cases =>
    blockLines ("switch " ++ Text.parenthesised subject.text) (SwitchCase.linesOfEach dialect cases)

/-- The lines of statements. -/
def Statement.linesOfEach (dialect : Dialect) : List Statement → List String
  | [] => []
  | statement :: rest => statement.lines dialect ++ Statement.linesOfEach dialect rest

/-- The lines of the cases of a switch. -/
def SwitchCase.linesOfEach (dialect : Dialect) : List SwitchCase → List String
  | [] => []
  | ⟨label, body⟩ :: rest =>
    blockLines label.text (Statement.linesOfEach dialect body) ++ SwitchCase.linesOfEach dialect rest

/-- The text of a declaration. -/
def Declaration.text (dialect : Dialect) : Declaration → String
  | .function head body => functionText head (Statement.linesOfEach dialect body)
  | .constant binder value => "const " ++ binder ++ " = " ++ value.text dialect ++ ";"
  | .verbatim text => text

end

end DerwLang.Ecma
