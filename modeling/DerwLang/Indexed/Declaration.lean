/-
**Reading declarations by index.**

Declarations are cut by their layout into ranges of indices and read one by one, those of a `let` by the same readers. The knot
of expressions and bodies is tied with more depth than there are characters; a reading that needs more is at fault.
-/

import DerwLang.Grammar.Module
import DerwLang.Indexed.Expression

namespace DerwLang.Indexed

open Grammar (isDefinition unquote untyped)

/-! ## Layout -/

/-- A new declaration starts with the token at an index, `start` being where the one at hand has started. -/
def opensBlock (tokens : List Token) (column start index : Nat) : Checked Bool := do
  let token ← Checked.item tokens index
  let before ← Checked.minus index 1
  let previous ← Checked.item tokens before
  if !token.startsLineAfter previous || column < token.column then return false
  else
    let head ← Checked.item tokens start
    if token.kind.isComment || head.kind.isComment then return true
    else if token.kind == .closeCurly || token.kind == .closeBracket || token.kind == .pipe then return false
    else if head.kind == .identifier && token.kind == .identifier && token.body == head.body &&
        tokens[start + 1]?.map Token.kind == some .colon then
      let own ← Checked.slice tokens start index
      return own.any fun token => token.kind == .assign
    else return true

/-- The ranges of the declarations, the one at hand having started at `start`. -/
def blocksFrom (tokens : List Token) (column : Nat) : (count start index : Nat) → Checked (List (Nat × Nat))
  | 0, start, index => return [(start, index)]
  | count + 1, start, index => do
    if ← opensBlock tokens column start index then
      let others ← blocksFrom tokens column count index (index + 1)
      return (start, index) :: others
    else blocksFrom tokens column count start (index + 1)

/-- The ranges of the declarations between two indices. -/
def splitBlocks (tokens : List Token) (start stop : Nat) : Checked (List (Nat × Nat)) :=
  match tokens[start]? with
  | none => return []
  | some first => blocksFrom tokens first.column (stop - (start + 1)) start (start + 1)

/-! ## Imports and exports -/

/-- The names up to the closing bracket, and the cursor after it. Commas and `..` are passed over. -/
def namesUpToClose : Nat → Cursor → Guarded (List String × Cursor)
  | 0, _ => .fault .endless
  | round + 1, cursor =>
    match cursor.peek with
    | none => cursor.refuse .unclosedNames
    | some token =>
      match token.kind with
      | .closeBracket => return ([], cursor.next)
      | .identifier => do
        let (names, ending) ← namesUpToClose round cursor.next
        return (token.body :: names, ending)
      | .comma => namesUpToClose round cursor.next
      | .operator .range => namesUpToClose round cursor.next
      | _ => .refuse (.noExposedName token.body) token.line

/-- A list of names in round brackets, and the cursor after it. -/
def nameList (cursor : Cursor) : Guarded (List String × Cursor) := do
  let (_, rest) ← cursor.expect .openBracket .toOpenNames
  namesUpToClose rest.rounds rest

/-- The name or the path of an imported module, and the cursor after it. What stands elsewhere is blamed from one token back,
or from the `import` if nothing stands there. -/
def moduleName (cursor : Cursor) : Guarded (String × ModuleOrigin × Cursor) :=
  match cursor.peek with
  | none =>
    let back := cursor.moved (cursor.index - 1)
    back.refuse (.noModuleName back.found)
  | some token =>
    match token.kind with
    | .identifier => return (token.body, .library, cursor.next)
    | .string => return (unquote token.body, .path, cursor.next)
    | _ =>
      let back := cursor.next.moved (cursor.next.index - 1)
      back.refuse (.noModuleName back.found)

/-- An import after its first token. -/
def importing (cursor : Cursor) : Guarded Block := do
  let (name, origin, rest) ← moduleName cursor
  let (alias?, rest) ← (
    if rest.nextKind == some (.keyword .asWord) then do
      let (name, rest) ← rest.next.expect .identifier .afterAs
      return (some name.body, rest)
    else return (none, rest) : Guarded (Option String × Cursor))
  let (exposing, rest) ← (
    if rest.nextKind == some (.keyword .exposingWord) then nameList rest.next
    else return ([], rest) : Guarded (List String × Cursor))
  rest.expectEnd .importing
  return .imports [⟨name, alias?, exposing, origin⟩]

/-- An export list after its `exposing`. -/
def exposing (cursor : Cursor) : Guarded Block := do
  let (names, rest) ← nameList cursor
  rest.expectEnd .exposing
  return .exports names

/-! ## Types -/

/-- `name: type`, between two indices, in a list of fields whose bracket is at `opening`. -/
def typedField (tokens : List Token) (opening : Nat) (range : Nat × Nat) : Guarded TypedField := do
  let own ← access (Checked.slice tokens range.1 range.2)
  let refuse : Guarded TypedField := do
    match own.head? with
    | some first => .refuse .noTypedField first.line
    | none =>
      let opener ← access (Checked.item tokens opening)
      .refuse .noTypedField opener.line
  match own with
  | name :: colon :: first :: rest =>
    if name.kind == .identifier && colon.kind == .colon then
      let type ← typeOf (first :: rest)
      return ⟨name.body, type⟩
    else refuse
  | _ => refuse

/-- Typed fields in curly brackets, and the cursor after them. -/
def typedFields (cursor : Cursor) : Guarded (List TypedField × Cursor) := do
  let (_, _) ← cursor.expect .openCurly .toOpenFields
  let close ← closing cursor cursor.index
  let fields ←
    if cursor.index + 1 < close then do
      let ranges ← access (parts cursor.tokens (cursor.index + 1) close .comma)
      ranges.mapM (typedField cursor.tokens cursor.index)
    else pure []
  return (fields, cursor.moved (close + 1))

/-- One tag of a union type, and the cursor after it. -/
def tag (cursor : Cursor) : Guarded (Tag × Cursor) := do
  let (name, rest) ← cursor.expect .identifier .asTag
  if rest.nextKind == some .openCurly then
    let (fields, rest) ← typedFields rest
    return (⟨name.body, fields⟩, rest)
  else return (⟨name.body, []⟩, rest)

/-- Tags between bars, and the cursor after them. -/
def tags : Nat → Cursor → Guarded (List Tag × Cursor)
  | 0, _ => .fault .endless
  | round + 1, cursor => do
    let (first, ending) ← tag cursor
    if ending.nextKind == some .pipe then
      let (others, final) ← tags round ending.next
      return (first :: others, final)
    else return ([first], ending)

/-- A union type after its `type`. -/
def unionType (cursor : Cursor) : Guarded Block := do
  let (name, rest) ← cursor.expect .identifier .afterType
  let (parameters, rest) ← rest.takeNames
  let (_, rest) ← rest.expect .assign (.afterTypeName name.body)
  let (tags, rest) ← tags rest.rounds rest
  rest.expectEnd .unionType
  return .union ⟨.named name.body (parameters.map Ty.variable), tags⟩

/-- An alias after its `type alias`. -/
def typeAlias (cursor : Cursor) : Guarded Block := do
  let (name, rest) ← cursor.expect .identifier .afterAlias
  let (parameters, rest) ← rest.takeNames
  let (_, rest) ← rest.expect .assign (.afterAliasName name.body)
  let (properties, rest) ← typedFields rest
  rest.expectEnd .typeAlias
  return .alias ⟨.named name.body (parameters.map Ty.variable), properties⟩

/-! ## Definitions -/

/-- A definition with the types of its signature. -/
def typed (name : String) (line : Nat) (types : List Ty) (arguments : List String) (body : Body) : Guarded Block := do
  if arguments.isEmpty then
    let type ← access (soleType types)
    return .constant ⟨name, type, body⟩
  else .ofParsed (Grammar.typed name line types arguments body)

/-- The types of the signature, if there is one, and the cursor after the defined name. -/
def optionalSignature (name : Token) (cursor : Cursor) : Guarded (Option (List Ty) × Cursor) :=
  if cursor.nextKind == some .colon then do
    let start := cursor.index + 1
    let found ← access (Checked.firstIndex (fun index => do
      let token ← Checked.item cursor.tokens index
      if token.kind == .identifier && token.body == name.body then startsLine cursor.tokens index else return false)
      (cursor.stop - start) start)
    match found with
    | none => .refuse (.missingDefinition name.body) name.line
    | some index =>
      let own ← access (Checked.slice cursor.tokens start index)
      let types ← signature own
      return (some types, cursor.moved (index + 1))
  else return (none, cursor)

/-- The definition of a function or a constant, `name` being its first token. -/
def definition (body : Cursor → Guarded Body) (name : Token) (cursor : Cursor) : Guarded Block := do
  let (types?, rest) ← optionalSignature name cursor
  let (arguments, rest) ← rest.takeNames
  let (_, rest) ← rest.expect .assign (.inDefinition name.body)
  let body ← body rest
  match types? with
  | none => return untyped name.body arguments body
  | some types => typed name.body name.line types arguments body

/-- The declaration up to where the cursor stops, with the reader of bodies given. -/
def blockWith (body : Cursor → Guarded Body) (cursor : Cursor) : Guarded Block :=
  match cursor.peek with
  | none => cursor.refuse .missingDeclaration
  | some token =>
    let after := cursor.next
    match token.kind with
    | .keyword .importWord => importing after
    | .keyword .exposingWord => exposing after
    | .keyword .typeWord =>
      if (cursor.peekAt 1).map Token.kind == some (.keyword .aliasWord) then typeAlias after.next else unionType after
    | .identifier => definition body token after
    | .unknown => cursor.refuse (.unrecognised token.body)
    | _ => cursor.refuse (.noDeclaration token.body)

/-! ## Local definitions -/

/-- A definition in a `let`, between two indices. -/
def localDefinition (body : Cursor → Guarded Body) (cursor : Cursor) (range : Nat × Nat) : Guarded Block := do
  let block ← blockWith body (cursor.between range.1 range.2)
  if isDefinition block then return block
  else
    let first ← access (Checked.item cursor.tokens range.1)
    .refuse .noLocal first.line

/-- The definitions of a `let`. -/
def localDefinitions (body : Cursor → Guarded Body) (cursor : Cursor) : Guarded (List Block) :=
  if cursor.stop ≤ cursor.index then cursor.refuse .missingLocal
  else do
    let ranges ← access (splitBlocks cursor.tokens cursor.index cursor.stop)
    ranges.mapM (localDefinition body cursor)

/-- All tokens up to where the cursor stops as an expression, perhaps after a `let`, with the readers of nested constructs
given. -/
def bodyStep (readers : Readers) (cursor : Cursor) : Guarded Body :=
  if cursor.nextKind == some (.keyword .letWord) then do
    match ← access (findKeyword cursor (cursor.index + 1) .inWord .letWord none) with
    | none => cursor.refuse .missingIn
    | some middle =>
      let locals ← localDefinitions readers.body (cursor.between (cursor.index + 1) middle)
      let result ← readers.expression (cursor.between (middle + 1) cursor.stop)
      return ⟨locals, result⟩
  else do
    let result ← expressionStep readers cursor
    return ⟨[], result⟩

/-! ## The knot -/

mutual

/-- All tokens up to where the cursor stops as one expression that nests less than so deep. -/
def expressionAt : Nat → Cursor → Guarded Expression
  | 0, _ => .fault .endless
  | depth + 1, cursor => expressionStep ⟨expressionAt depth, bodyAt depth⟩ cursor

/-- All tokens up to where the cursor stops as a body that nests less than so deep. -/
def bodyAt : Nat → Cursor → Guarded Body
  | 0, _ => .fault .endless
  | depth + 1, cursor => bodyStep ⟨expressionAt depth, bodyAt depth⟩ cursor

end

/-- More depth than a reading of the tokens can need. -/
def Cursor.depth (cursor : Cursor) : Nat :=
  Window.weight ⟨0, cursor.tokens⟩ + 1

/-- The declaration that some tokens make, comments among them; none when they are but comments that share a line. -/
def blockOfTokens (tokens : List Token) : Guarded (Option Block) :=
  let cursor := Cursor.start (Token.significant tokens)
  let read : Guarded (Option Block) :=
    if cursor.tokens.isEmpty then return none else some <$> blockWith (bodyAt cursor.depth) cursor
  match tokens with
  | [token] =>
    match token.kind with
    | .comment => return some (.comment token.body)
    | .multilineComment => return some (.multilineComment token.body)
    | _ => read
  | _ => read

/-- The module that a source declares. -/
def parseModule (source name : String) : Checked Module := do
  let all ← tokenize source
  let tokens := all.filter fun token => token.kind != .whitespace
  let ranges ← splitBlocks tokens 0 tokens.length
  let read ← ranges.mapM fun range => do
    let own ← Checked.slice tokens range.1 range.2
    (blockOfTokens own).run
  return ⟨name, read.filterMap Grammar.blockOf?, read.filterMap Grammar.errorOf?⟩

/-- The single expression that a source holds. -/
def parseExpression (source : String) : Checked (Parsed Expression) := do
  let all ← tokenize source
  let cursor := Cursor.start (Token.significant all)
  (expressionAt cursor.depth cursor).run

end DerwLang.Indexed
