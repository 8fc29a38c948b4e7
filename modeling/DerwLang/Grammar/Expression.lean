/-
**Reading expressions.**

An expression is a chain of operands. An operand is a name applied to atoms, a single atom, or one of the three
forms that reach to the end of the window: `if`, `case` and lambdas. Whatever is nested stands in a window of
smaller weight, so the readers of this module take the readers of nested expressions and bodies as an argument
(`Nested`), and the knot is tied once, by the weight of the window:

* `expression` reads a whole window as one expression;
* `body` reads a whole window as an expression with the definitions local to it.
-/

import DerwLang.Grammar.Chain
import DerwLang.Grammar.Pattern
import DerwLang.Grammar.Type
import DerwLang.Token.Lexer

namespace DerwLang.Grammar

/-- The readers of nested windows. -/
structure Nested where
  expression : Window → Parsed Expression
  body : Window → Parsed Body

/-! ## Atoms -/

/-- A name applied to arguments, if there are any. -/
def applied (name : String) : List Expression → Expression
  | [] => .value name
  | arguments => .call name arguments

/-- A name applied to arguments; a dotted name with a capitalised head belongs to another module. -/
def reference (name : String) (arguments : List Expression) : Expression :=
  let segments := Text.splitAt '.' name
  match segments.dropLast, segments.getLast? with
  | head :: path, some last =>
    if Text.isCapitalised head then .reference (head :: path) (applied last arguments)
    else applied name arguments
  | _, _ => applied name arguments

/-- `name: value`, the value reaching to the end of the window. -/
def recordField (nested : Nested) (opening : Nat) (window : Window) : Parsed Field :=
  match window.tokens with
  | [] => .error ⟨.missingRecordField, opening⟩
  | name :: rest =>
    let refuse : Parsed Field := .error ⟨.noRecordField name.body, name.line⟩
    match rest with
    | [] => refuse
    | colon :: value =>
      if name.kind == .identifier && colon.kind == .colon then do
        let value ← nested.expression ⟨colon.line, value⟩
        return ⟨name.body, value⟩
      else refuse

/-- The name that stands alone in a window. -/
def loneName? (window : Window) : Option String :=
  match window.tokens with
  | [name] => if name.kind == .identifier then some name.body else none
  | _ => none

/-- The fields of a record literal, the first of which may be a base. -/
def recordFields (nested : Nested) (opening : Nat) : List Window → Parsed RecordLiteral
  | [] => .ok ⟨none, []⟩
  | window :: more =>
    match loneName? window with
    | some base => do
      let fields ← more.mapM (recordField nested opening)
      return ⟨some base, fields⟩
    | none => do
      let fields ← (window :: more).mapM (recordField nested opening)
      return ⟨none, fields⟩

/-- The record literal after its opening bracket, and the window after it. -/
def recordLiteral (nested : Nested) (opening : Token) (rest : List Token) :
    Parsed (RecordLiteral × Window) :=
  match Token.splitClose .openCurly .closeCurly 0 rest with
  | none => .error ⟨.unclosed .openCurly .closeCurly, opening.line⟩
  | some cut => do
    let inside : Window := ⟨opening.line, cut.inside⟩
    let literal ←
      if cut.inside.isEmpty then .ok ⟨none, []⟩
      else recordFields nested opening.line (inside.splitOutside .comma)
    return (literal, ⟨cut.token.line, cut.after⟩)

/-- One bound of a range: a single literal or name. -/
def rangeBound : List Token → Parsed String
  | [token] =>
    if token.kind == .literal || token.kind == .identifier then .ok token.body
    else .error ⟨.rangeBound, token.line⟩
  | tokens => .error ⟨.rangeBound, lineOf tokens⟩

/-- One item of a list that starts on the given line. -/
def listItem (nested : Nested) (line : Nat) (window : Window) : Parsed Expression :=
  if window.tokens.isEmpty then .error ⟨.missingItem, line⟩ else nested.expression window

/-- The list or the range that a list literal holds. Its interior is read anew, at its own place in the
source. -/
def listLiteral (nested : Nested) (literal : Token) : Parsed Expression :=
  let tokens := Token.significant
    (tokenizeAt (unquote literal.body) literal.line (literal.column + 1))
  if tokens.isEmpty then .ok (.list [])
  else
    match Token.splitKind (.operator .range) tokens with
    | some cut => do
      let first ← rangeBound cut.inside
      let last ← rangeBound cut.after
      return .range first last
    | none => do
      let window : Window := ⟨lineOf tokens, tokens⟩
      let items ← (window.splitOutside .comma).mapM (listItem nested literal.line)
      return .list items

/-- The number that a minus belongs to: it stands directly after it. -/
def negatedNumber? (minus number : Token) : Option String :=
  if number.kind == .literal && number.line == minus.line && number.column == minus.column + 1 &&
      number.body.toList.head?.any Char.isDigit then
    some ("-" ++ number.body)
  else none

/-- One atom, and the window after it. -/
def atom (nested : Nested) (window : Window) : Parsed (Expression × Window) :=
  match window.tokens with
  | [] => window.error .missingExpression
  | token :: rest =>
    let after : Window := ⟨token.line, rest⟩
    match token.kind with
    | .literal =>
      if isListLiteral token then do
        let items ← listLiteral nested token
        return (items, after)
      else .ok (.value token.body, after)
    | .string => .ok (.string (unquote token.body), after)
    | .formatString => .ok (.formatString (unquote token.body), after)
    | .openBracket =>
      match Token.splitClose .openBracket .closeBracket 0 rest with
      | none => .error ⟨.unclosed .openBracket .closeBracket, token.line⟩
      | some cut => do
        let inner ← nested.expression ⟨token.line, cut.inside⟩
        return (inner, ⟨cut.token.line, cut.after⟩)
    | .openCurly => do
      let (literal, ending) ← recordLiteral nested token rest
      return (.record literal, ending)
    | .identifier =>
      let plain : Parsed (Expression × Window) := .ok (reference token.body [], after)
      match rest with
      | [] => plain
      | next :: more =>
        if Text.isCapitalised token.body && !Text.hasChar token.body '.' &&
            next.kind == .openCurly then do
          let (literal, ending) ← recordLiteral nested next more
          return (.construct token.body literal, ending)
        else plain
    | .operator .minus =>
      match rest with
      | [] => .error ⟨.bareMinus, token.line⟩
      | number :: more =>
        match negatedNumber? token number with
        | some text => .ok (.value text, ⟨number.line, more⟩)
        | none => .error ⟨.bareMinus, token.line⟩
    | .unknown => .error ⟨.unrecognised token.body, token.line⟩
    | _ => .error ⟨.noExpression token.body, token.line⟩

/-- After a record literal fewer tokens are left. -/
theorem length_recordLiteral {nested : Nested} {opening : Token} {rest : List Token}
    {literal : RecordLiteral} {ending : Window}
    (read : recordLiteral nested opening rest = .ok (literal, ending)) :
    ending.tokens.length < rest.length := by
  unfold recordLiteral at read
  split at read
  · simp at read
  · rename_i cut found
    have whole := congrArg List.length (Token.splitClose_eq found)
    simp only [Cut.all, List.length_append, List.length_cons] at whole
    have same : ending = ⟨cut.token.line, cut.after⟩ := by
      simp only [bind, Except.bind, pure, Except.pure] at read
      split at read
      · simp_all
      · split at read <;> simp_all
    subst same
    simp only
    omega

/-- After an atom fewer tokens are left. -/
theorem length_atom {nested : Nested} {window ending : Window} {result : Expression}
    (read : atom nested window = .ok (result, ending)) :
    ending.tokens.length < window.tokens.length := by
  unfold atom at read
  split at read
  · simp [Window.error] at read
  · rename_i token rest tokens
    rw [tokens]
    have single : ∀ {value : Expression},
        (Except.ok (value, Window.mk token.line rest) : Parsed (Expression × Window)) =
          .ok (result, ending) → ending.tokens.length < (token :: rest).length := by
      intro value same
      simp only [Except.ok.injEq, Prod.mk.injEq] at same
      simp [← same.2]
    simp only [bind, Except.bind, pure, Except.pure] at read
    split at read
    · split at read
      · split at read
        · simp at read
        · exact single read
      · exact single read
    · exact single read
    · exact single read
    · split at read
      · simp at read
      · rename_i cut found
        have whole := congrArg List.length (Token.splitClose_eq found)
        simp only [Cut.all, List.length_append, List.length_cons] at whole
        split at read
        · simp at read
        · simp only [Except.ok.injEq, Prod.mk.injEq] at read
          simp only [← read.2, List.length_cons]
          omega
    · split at read
      · simp at read
      · rename_i literal
        have shorter := length_recordLiteral literal
        simp only [Except.ok.injEq, Prod.mk.injEq] at read
        simp only [← read.2, List.length_cons]
        omega
    · split at read
      · exact single read
      · split at read
        · split at read
          · simp at read
          · rename_i literal
            have shorter := length_recordLiteral literal
            simp only [Except.ok.injEq, Prod.mk.injEq] at read
            simp only [← read.2, List.length_cons]
            omega
        · exact single read
    · split at read
      · simp at read
      · split at read
        · simp only [Except.ok.injEq, Prod.mk.injEq] at read
          simp only [← read.2, List.length_cons]
          omega
        · simp at read
    · simp at read
    · simp at read

/-! ## Operands -/

/-- A token of this kind starts an argument. -/
def startsAtom : Token.Kind → Bool
  | .identifier | .literal | .string | .formatString | .openBracket | .openCurly => true
  | _ => false

/-- The arguments ahead, and the window after them. -/
def arguments (nested : Nested) (window : Window) : Parsed (List Expression × Window) :=
  if window.nextKind.any startsAtom then
    match _read : atom nested window with
    | .error error => .error error
    | .ok (first, ending) => do
      let (others, final) ← arguments nested ending
      return (first :: others, final)
  else .ok ([], window)
termination_by window.tokens.length
decreasing_by exact length_atom _read

/-- A conditional after its `if`, up to the end of the window. -/
def conditional (nested : Nested) (window : Window) : Parsed Expression :=
  match Token.splitKeyword .thenWord .ifWord .elseWord 0 window.tokens with
  | none => window.error .missingThen
  | some predicate =>
    match Token.splitKeyword .elseWord .ifWord .elseWord 0 predicate.after with
    | none => window.error .missingElse
    | some yes => do
      let test ← nested.expression ⟨window.before, predicate.inside⟩
      let whenTrue ← nested.body ⟨predicate.token.line, yes.inside⟩
      let whenFalse ← nested.body ⟨yes.token.line, yes.after⟩
      return .conditional test whenTrue whenFalse

/-- One branch of a case: a pattern, an arrow and a body. -/
def branch (nested : Nested) (window : Window) : Parsed Branch :=
  match Token.splitKind .arrow window.tokens with
  | none => window.error (.missingBranchArrow window.found)
  | some cut => do
    let pattern ← pattern ⟨window.before, cut.inside⟩
    let body ← nested.body ⟨cut.token.line, cut.after⟩
    return ⟨pattern, body⟩

/-- The branches of a case after its `of`. A branch starts on a line of its own at or left of the column of the
first one. -/
def branches (nested : Nested) (window : Window) : Parsed (List Branch) :=
  match window.tokens with
  | [] => window.error .missingBranch
  | first :: rest =>
    (Window.splitStarts first.column window.before first rest).mapM (branch nested)

/-- A case after its `case`, up to the end of the window. -/
def caseOf (nested : Nested) (window : Window) : Parsed Expression :=
  match Token.splitKeyword .ofWord .caseWord .ofWord 0 window.tokens with
  | none => window.error .missingOf
  | some cut => do
    let predicate ← nested.expression ⟨window.before, cut.inside⟩
    let branches ← branches nested ⟨cut.token.line, cut.after⟩
    return .caseOf predicate branches

/-- A lambda after its backslash, up to the end of the window. -/
def lambda (nested : Nested) (window : Window) : Parsed Lambda :=
  match window.takeNames with
  | ([], rest) => rest.error (.missingLambdaArgument rest.found)
  | (parameters, rest) => do
    let (_, rest) ← rest.expect .arrow .afterLambdaArguments
    let body ← nested.expression rest
    return ⟨parameters, body⟩

/-- One operand of a chain, and the window after it. -/
def operand (nested : Nested) (window : Window) : Parsed (Expression × Window) :=
  match window.tokens with
  | [] => window.error .missingExpression
  | token :: rest =>
    let after : Window := ⟨token.line, rest⟩
    match token.kind with
    | .keyword .ifWord => do
      let whole ← conditional nested after
      return (whole, window.finished)
    | .keyword .caseWord => do
      let whole ← caseOf nested after
      return (whole, window.finished)
    | .backslash => do
      let whole ← lambda nested after
      return (.lambda whole, window.finished)
    | .identifier =>
      if Text.isCapitalised token.body && !Text.hasChar token.body '.' then atom nested window
      else do
        let (arguments, ending) ← arguments nested after
        return (reference token.body arguments, ending)
    | _ => atom nested window

/-- After arguments no more tokens are left than before. -/
theorem length_arguments {nested : Nested} {window ending : Window} {result : List Expression}
    (read : arguments nested window = .ok (result, ending)) :
    ending.tokens.length ≤ window.tokens.length := by
  fun_induction arguments nested window generalizing result ending with
  | case1 => simp at read
  | case2 window _ first ending' found step =>
    have shorter := length_atom found
    simp only [bind, Except.bind, pure, Except.pure] at read
    split at read
    · simp at read
    · rename_i pair others
      simp only [Except.ok.injEq, Prod.mk.injEq] at read
      have later := step others
      rw [read.2] at later
      omega
  | case3 =>
    simp only [Except.ok.injEq, Prod.mk.injEq] at read
    simp [← read.2]

/-- After an operand fewer tokens are left. -/
theorem length_operand {nested : Nested} {window ending : Window} {result : Expression}
    (read : operand nested window = .ok (result, ending)) :
    ending.tokens.length < window.tokens.length := by
  unfold operand at read
  split at read
  · simp [Window.error] at read
  · rename_i token rest tokens
    rw [tokens]
    have whole : ∀ {value : Expression},
        (Except.ok (value, window.finished) : Parsed (Expression × Window)) =
          .ok (result, ending) → ending.tokens.length < (token :: rest).length := by
      intro value same
      simp only [Except.ok.injEq, Prod.mk.injEq] at same
      simp [← same.2, Window.finished]
    have single : atom nested window = .ok (result, ending) →
        ending.tokens.length < (token :: rest).length := by
      intro same
      rw [← tokens]
      exact length_atom same
    simp only [bind, Except.bind, pure, Except.pure] at read
    split at read
    · split at read
      · simp at read
      · exact whole read
    · split at read
      · simp at read
      · exact whole read
    · split at read
      · simp at read
      · exact whole read
    · split at read
      · exact single read
      · split at read
        · simp at read
        · rename_i arguments
          have shorter := length_arguments arguments
          simp only [Except.ok.injEq, Prod.mk.injEq] at read
          simp only [← read.2, List.length_cons]
          simp only at shorter
          omega
    · exact single read

/-! ## Chains -/

/-- The operators ahead with their operands, and the window after them. -/
def links (nested : Nested) (comparing : Comparing) (window : Window) :
    Parsed (List Link × Window) :=
  match _tokens : window.tokens with
  | [] => .ok ([], window)
  | token :: rest =>
    match BinaryOperator.ofKind? token.kind with
    | none => .ok ([], window)
    | some operator =>
      match comparing.chainedWith operator with
      | some first => window.error (.chainedComparison first operator)
      | none =>
        match _read : operand nested ⟨token.line, rest⟩ with
        | .error error => .error error
        | .ok (operand, ending) => do
          let (others, final) ← links nested (comparing.after operator) ending
          return (⟨operator, operand⟩ :: others, final)
termination_by window.tokens.length
decreasing_by
  have := length_operand _read
  rw [_tokens]
  simp only [List.length_cons]
  simp only at this
  omega

/-- The whole window as one expression, with the readers of nested windows given. -/
def expressionStep (nested : Nested) (window : Window) : Parsed Expression := do
  let (first, ending) ← operand nested window
  let (links, final) ← links nested none ending
  final.expectEnd .expression
  return Chain.group first links

end DerwLang.Grammar
