/-
**Reading expressions by index.**

The readers of this module are those of expressions over windows, with a cursor for each window: brackets, reserved words and
separators are found as indices, and what is nested is read between two of them. How a chain of operators groups needs no
access, so it is taken over.
-/

import DerwLang.Grammar.Expression
import DerwLang.Indexed.Lexer
import DerwLang.Indexed.Pattern
import DerwLang.Indexed.Type

namespace DerwLang.Indexed

open Grammar (applied isListLiteral loneName? negatedNumber? unquote)

/-- The readers of nested constructs. -/
structure Readers where
  expression : Cursor → Guarded Expression
  body : Cursor → Guarded Body

/-! ## Atoms -/

/-- A name applied to arguments; a dotted name with a capitalised head belongs to another module. -/
def reference (name : String) (arguments : List Expression) : Checked Expression :=
  let segments := Text.splitAt '.' name
  match segments.getLast? with
  | none => return applied name arguments
  | some last =>
    let path := segments.dropLast
    if path.isEmpty then return applied name arguments
    else do
      let head ← Checked.item path 0
      if Text.isCapitalised head then return .reference path (applied last arguments)
      else return applied name arguments

/-- `name: value`, between two indices, in a literal whose bracket is at `opening`. -/
def recordField (readers : Readers) (cursor : Cursor) (opening : Nat) (range : Nat × Nat) : Guarded Field := do
  match ← access (Checked.slice cursor.tokens range.1 range.2) with
  | [] =>
    let opener ← access (Checked.item cursor.tokens opening)
    .refuse .missingRecordField opener.line
  | [name] => .refuse (.noRecordField name.body) name.line
  | name :: colon :: _ =>
    if name.kind == .identifier && colon.kind == .colon then
      let value ← readers.expression (cursor.between (range.1 + 2) range.2)
      return ⟨name.body, value⟩
    else .refuse (.noRecordField name.body) name.line

/-- The fields of a record literal, the first of which may be a base. -/
def recordFields (readers : Readers) (cursor : Cursor) (opening : Nat) : List (Nat × Nat) → Guarded RecordLiteral
  | [] => return ⟨none, []⟩
  | range :: more => do
    let first ← access (Checked.slice cursor.tokens range.1 range.2)
    match loneName? ⟨0, first⟩ with
    | some base =>
      let fields ← more.mapM (recordField readers cursor opening)
      return ⟨some base, fields⟩
    | none =>
      let fields ← (range :: more).mapM (recordField readers cursor opening)
      return ⟨none, fields⟩

/-- The record literal whose bracket is at the cursor, and the cursor after it. -/
def recordLiteral (readers : Readers) (cursor : Cursor) : Guarded (RecordLiteral × Cursor) := do
  let close ← closing cursor cursor.index
  let literal ←
    if cursor.index + 1 < close then do
      let ranges ← access (parts cursor.tokens (cursor.index + 1) close .comma)
      recordFields readers cursor cursor.index ranges
    else pure ⟨none, []⟩
  return (literal, cursor.moved (close + 1))

/-- One bound of a range: a single literal or name. -/
def rangeBound (tokens : List Token) (start stop : Nat) : Guarded String := do
  match ← access (Checked.slice tokens start stop) with
  | [token] =>
    if token.kind == .literal || token.kind == .identifier then return token.body
    else .refuse .rangeBound token.line
  | bound => .refuse .rangeBound (Grammar.lineOf bound)

/-- One item of a list that starts on the given line. -/
def listItem (readers : Readers) (cursor : Cursor) (line : Nat) (range : Nat × Nat) : Guarded Expression :=
  if range.1 == range.2 then .refuse .missingItem line
  else readers.expression (cursor.between range.1 range.2)

/-- What stands between the brackets of a list literal; nothing if they cannot be taken off. -/
def interior (literal : Token) : Checked String := do
  let stop ← Checked.minus (Checked.bytes literal.body.toList) 1
  match Checked.chars literal.body.toList 1 stop with
  | .ok inside => return String.ofList inside
  | .error _ => return ""

/-- The list or the range that a list literal holds. Its interior is read anew, at its own place in the source. -/
def listLiteral (readers : Readers) (literal : Token) : Guarded Expression := do
  let inside ← access (interior literal)
  let all ← access (tokenizeAt inside literal.line (literal.column + 1))
  let tokens := Token.significant all
  if tokens.isEmpty then return .list []
  else
    match tokens.findIdx? fun token => token.kind == .operator .range with
    | some index =>
      let first ← rangeBound tokens 0 index
      let last ← rangeBound tokens (index + 1) tokens.length
      return .range first last
    | none =>
      let ranges ← access (parts tokens 0 tokens.length .comma)
      let items ← ranges.mapM (listItem readers (Cursor.start tokens) literal.line)
      return .list items

/-- One atom, and the cursor after it. -/
def atom (readers : Readers) (cursor : Cursor) : Guarded (Expression × Cursor) :=
  match cursor.peek with
  | none => cursor.refuse .missingExpression
  | some token =>
    let after := cursor.next
    match token.kind with
    | .literal =>
      if isListLiteral token then do
        let items ← listLiteral readers token
        return (items, after)
      else return (.value token.body, after)
    | .string => return (.string (unquote token.body), after)
    | .formatString => return (.formatString (unquote token.body), after)
    | .openBracket => do
      let opening ← access (Checked.minus after.index 1)
      let close ← closing after opening
      let inner ← readers.expression (after.between after.index close)
      return (inner, after.moved (close + 1))
    | .openCurly => do
      let opening ← access (Checked.minus after.index 1)
      let (literal, ending) ← recordLiteral readers (after.moved opening)
      return (.record literal, ending)
    | .identifier =>
      if Text.isCapitalised token.body && !Text.hasChar token.body '.' && after.nextKind == some .openCurly then do
        let (literal, ending) ← recordLiteral readers after
        return (.construct token.body literal, ending)
      else do
        let plain ← access (reference token.body [])
        return (plain, after)
    | .operator .minus =>
      match after.peek with
      | none => .refuse .bareMinus token.line
      | some number =>
        match negatedNumber? token number with
        | some text => return (.value text, after.next)
        | none => .refuse .bareMinus token.line
    | .unknown => .refuse (.unrecognised token.body) token.line
    | _ => .refuse (.noExpression token.body) token.line

/-! ## Operands -/

/-- The arguments ahead, and the cursor after them. -/
def arguments (readers : Readers) : Nat → Cursor → Guarded (List Expression × Cursor)
  | 0, _ => .fault .endless
  | round + 1, cursor =>
    if cursor.nextKind.any Grammar.startsAtom then do
      let (first, ending) ← atom readers cursor
      let (others, final) ← arguments readers round ending
      return (first :: others, final)
    else return ([], cursor)

/-- A conditional after its `if`, up to where the cursor stops. -/
def conditional (readers : Readers) (cursor : Cursor) : Guarded Expression := do
  match ← access (findKeyword cursor cursor.index .thenWord .ifWord (some .elseWord)) with
  | none => cursor.refuse .missingThen
  | some yes =>
    match ← access (findKeyword cursor (yes + 1) .elseWord .ifWord none) with
    | none => cursor.refuse .missingElse
    | some no =>
      let test ← readers.expression (cursor.between cursor.index yes)
      let whenTrue ← readers.body (cursor.between (yes + 1) no)
      let whenFalse ← readers.body (cursor.between (no + 1) cursor.stop)
      return .conditional test whenTrue whenFalse

/-- One branch of a case: a pattern, an arrow and a body. -/
def branch (readers : Readers) (cursor : Cursor) : Guarded Branch := do
  match ← access (findKind cursor .arrow) with
  | none => cursor.refuse (.missingBranchArrow cursor.found)
  | some arrow =>
    let pattern ← pattern (cursor.between cursor.index arrow)
    let body ← readers.body (cursor.between (arrow + 1) cursor.stop)
    return ⟨pattern, body⟩

/-- The indices of the tokens that start a line at or left of a column. -/
def lineStarts (tokens : List Token) (column : Nat) : (count index : Nat) → Checked (List Nat)
  | 0, _ => return []
  | count + 1, index => do
    let starts ← startsLine tokens index
    let token ← Checked.item tokens index
    let others ← lineStarts tokens column count (index + 1)
    return if starts && token.column ≤ column then index :: others else others

/-- The parts between one index and the next, the last of them up to `stop`. -/
def rangesFrom (start : Nat) (stop : Nat) : List Nat → List (Nat × Nat)
  | [] => [(start, stop)]
  | next :: more => (start, next) :: rangesFrom next stop more

/-- The branches of a case after its `of`. A branch starts on a line of its own at or left of the column of the first one. -/
def branches (readers : Readers) (cursor : Cursor) : Guarded (List Branch) :=
  if cursor.stop ≤ cursor.index then cursor.refuse .missingBranch
  else do
    let first ← access (Checked.item cursor.tokens cursor.index)
    let starts ← access (lineStarts cursor.tokens first.column (cursor.stop - (cursor.index + 1)) (cursor.index + 1))
    (rangesFrom cursor.index cursor.stop starts).mapM fun range => branch readers (cursor.between range.1 range.2)

/-- A case after its `case`, up to where the cursor stops. -/
def caseOf (readers : Readers) (cursor : Cursor) : Guarded Expression := do
  match ← access (findKeyword cursor cursor.index .ofWord .caseWord none) with
  | none => cursor.refuse .missingOf
  | some middle =>
    let predicate ← readers.expression (cursor.between cursor.index middle)
    let branches ← branches readers (cursor.moved (middle + 1))
    return .caseOf predicate branches

/-- A lambda after its backslash, up to where the cursor stops. -/
def lambda (readers : Readers) (cursor : Cursor) : Guarded Lambda := do
  let (parameters, rest) ← cursor.takeNames
  if parameters.isEmpty then rest.refuse (.missingLambdaArgument rest.found)
  else
    let (_, rest) ← rest.expect .arrow .afterLambdaArguments
    let body ← readers.expression rest
    return ⟨parameters, body⟩

/-- One operand of a chain, and the cursor after it. -/
def operand (readers : Readers) (cursor : Cursor) : Guarded (Expression × Cursor) :=
  match cursor.peek with
  | none => cursor.refuse .missingExpression
  | some token =>
    let after := cursor.next
    match token.kind with
    | .keyword .ifWord => do
      let whole ← conditional readers after
      return (whole, cursor.moved cursor.stop)
    | .keyword .caseWord => do
      let whole ← caseOf readers after
      return (whole, cursor.moved cursor.stop)
    | .backslash => do
      let whole ← lambda readers after
      return (.lambda whole, cursor.moved cursor.stop)
    | .identifier =>
      if Text.isCapitalised token.body && !Text.hasChar token.body '.' then atom readers cursor
      else do
        let (arguments, ending) ← arguments readers after.rounds after
        let value ← access (reference token.body arguments)
        return (value, ending)
    | _ => atom readers cursor

/-! ## Chains -/

/-- The operators ahead with their operands, and the cursor after them. -/
def links (readers : Readers) : Nat → Comparing → Cursor → Guarded (List Link × Cursor)
  | 0, _, _ => .fault .endless
  | round + 1, comparing, cursor =>
    match cursor.peek with
    | none => return ([], cursor)
    | some token =>
      match BinaryOperator.ofKind? token.kind with
      | none => return ([], cursor)
      | some operator =>
        match comparing.chainedWith operator with
        | some first => cursor.refuse (.chainedComparison first operator)
        | none => do
          let (operand, ending) ← operand readers cursor.next
          let (others, final) ← links readers round (comparing.after operator) ending
          return (⟨operator, operand⟩ :: others, final)

/-- The chain that starts at the cursor, and the cursor after it. -/
def chain (readers : Readers) (cursor : Cursor) : Guarded (Expression × Cursor) := do
  let (first, ending) ← operand readers cursor
  let (links, final) ← links readers ending.rounds none ending
  return (Chain.group first links, final)

/-- All tokens up to where the cursor stops as one expression, with the readers of nested constructs given. -/
def expressionStep (readers : Readers) (cursor : Cursor) : Guarded Expression := do
  let (whole, final) ← chain readers cursor
  final.expectEnd .expression
  return whole

end DerwLang.Indexed
