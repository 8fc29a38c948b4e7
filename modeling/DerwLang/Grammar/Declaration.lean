/-
**Reading declarations.**

The first token of a window tells what it declares: an import, an export list, a union type, an alias, or the
definition of a function or a constant, with or without a signature. Windows of declarations are cut from a
list of tokens by their layout (`splitBlocks`): a declaration starts on a line of its own at or left of the
column of the first token. Closing brackets, the bars of a union and the definition that follows its own
signature go on with the declaration before them, while comments always stand alone.
-/

import DerwLang.Grammar.Expression

namespace DerwLang.Grammar

/-! ## Layout -/

/-- What has to be known of the declaration at hand to tell where the next one starts. -/
structure Opened where
  head : Token
  second : Option Token.Kind
  assigned : Bool

/-- A declaration of which one token is known. -/
def Opened.ofHead (head : Token) : Opened :=
  ⟨head, none, head.kind == .assign⟩

/-- A declaration with one more token. -/
def Opened.push (opened : Opened) (token : Token) : Opened :=
  ⟨opened.head, opened.second.or (some token.kind), opened.assigned || token.kind == .assign⟩

/-- The token is the name of the definition that the signature at hand announces. -/
def Opened.announces (opened : Opened) (token : Token) : Bool :=
  opened.head.kind == .identifier && token.kind == .identifier && token.body == opened.head.body &&
    opened.second == some .colon && !opened.assigned

/-- A new declaration starts with the token, `previous` being the one before it. -/
def startsBlock (column : Nat) (opened : Opened) (previous token : Token) : Bool :=
  token.startsLineAfter previous && token.column ≤ column &&
    (token.kind.isComment || opened.head.kind.isComment ||
      !(token.kind == .closeCurly || token.kind == .closeBracket || token.kind == .pipe ||
        opened.announces token))

/-- The windows of the declarations at a column, the first of which is open and ends, so far, with
`previous`. -/
def blocksFrom (column : Nat) (opened : Opened) : Nat → Token → List Token → List Window
  | before, previous, [] => [⟨before, [previous]⟩]
  | before, previous, token :: rest =>
    if startsBlock column opened previous token then
      ⟨before, [previous]⟩ :: blocksFrom column (.ofHead token) previous.line token rest
    else
      Window.pushFirst before previous (blocksFrom column (opened.push token) before token rest)

/-- The windows of the declarations in a window. -/
def splitBlocks (window : Window) : List Window :=
  match window.tokens with
  | [] => []
  | first :: rest => blocksFrom first.column (.ofHead first) window.before first rest

/-! ## Imports and exports -/

/-- The names up to the closing bracket, and the window after it. Commas and `..` are passed over. -/
def namesUpToClose : Nat → List Token → Parsed (List String × Window)
  | before, [] => .error ⟨.unclosedNames, before⟩
  | _, token :: rest =>
    match token.kind with
    | .closeBracket => .ok ([], ⟨token.line, rest⟩)
    | .identifier => do
      let (names, ending) ← namesUpToClose token.line rest
      return (token.body :: names, ending)
    | .comma => namesUpToClose token.line rest
    | .operator .range => namesUpToClose token.line rest
    | _ => .error ⟨.noExposedName token.body, token.line⟩

/-- A list of names in round brackets, and the window after it. -/
def nameList (window : Window) : Parsed (List String × Window) := do
  let (opening, rest) ← window.expect .openBracket .toOpenNames
  namesUpToClose opening.line rest.tokens

/-- An import, `start` being its first token. -/
def importing (start : Token) (window : Window) : Parsed Block := do
  let (name, origin, rest) ← (match window.tokens with
    | [] => .error ⟨.noModuleName (some start.body), start.line⟩
    | token :: rest =>
      match token.kind with
      | .identifier => .ok (token.body, .library, ⟨token.line, rest⟩)
      | .string => .ok (unquote token.body, .path, ⟨token.line, rest⟩)
      | _ => window.error (.noModuleName window.found) :
    Parsed (String × ModuleOrigin × Window))
  let (alias?, rest) ← (match rest.nextKind with
    | some (.keyword .asWord) => do
      let (name, rest) ← Window.expect ⟨rest.line, rest.tokens.tail⟩ .identifier .afterAs
      return (some name.body, rest)
    | _ => return (none, rest) : Parsed (Option String × Window))
  let (exposing, rest) ← (match rest.nextKind with
    | some (.keyword .exposingWord) => nameList ⟨rest.line, rest.tokens.tail⟩
    | _ => return ([], rest) : Parsed (List String × Window))
  rest.expectEnd .importing
  return .imports [⟨name, alias?, exposing, origin⟩]

/-- An export list after its `exposing`. -/
def exposing (window : Window) : Parsed Block := do
  let (names, rest) ← nameList window
  rest.expectEnd .exposing
  return .exports names

/-! ## Types -/

/-- `name: type`, the type reaching to the end of the window. -/
def typedField (opening : Nat) (window : Window) : Parsed TypedField :=
  let refuse : Parsed TypedField :=
    .error ⟨.noTypedField, (window.tokens.head?.map Token.line).getD opening⟩
  match window.tokens with
  | name :: colon :: first :: rest =>
    if name.kind == .identifier && colon.kind == .colon then do
      let type ← typeOf (first :: rest)
      return ⟨name.body, type⟩
    else refuse
  | _ => refuse

/-- Typed fields in curly brackets, and the window after them. -/
def typedFields (window : Window) : Parsed (List TypedField × Window) := do
  let (opening, rest) ← window.expect .openCurly .toOpenFields
  match Token.splitClose .openCurly .closeCurly 0 rest.tokens with
  | none => .error ⟨.unclosed .openCurly .closeCurly, opening.line⟩
  | some cut =>
    let inside : Window := ⟨opening.line, cut.inside⟩
    let fields ←
      if cut.inside.isEmpty then .ok []
      else (inside.splitOutside .comma).mapM (typedField opening.line)
    return (fields, ⟨cut.token.line, cut.after⟩)

/-- One tag of a union type, and the window after it. -/
def tag (window : Window) : Parsed (Tag × Window) := do
  let (name, rest) ← window.expect .identifier .asTag
  match rest.nextKind with
  | some .openCurly =>
    let (fields, rest) ← typedFields rest
    return (⟨name.body, fields⟩, rest)
  | _ => return (⟨name.body, []⟩, rest)

/-- The required token is taken away. -/
theorem length_expect {window ending : Window} {kind : Token.Kind} {place : Requirement}
    {token : Token} (read : window.expect kind place = .ok (token, ending)) :
    ending.tokens.length < window.tokens.length := by
  unfold Window.expect at read
  split at read
  · simp [Window.error] at read
  · rename_i tokens
    rw [tokens]
    split at read
    · simp only [Except.ok.injEq, Prod.mk.injEq] at read
      simp [← read.2]
    · simp [Window.error] at read

/-- After typed fields fewer tokens are left. -/
theorem length_typedFields {window ending : Window} {fields : List TypedField}
    (read : typedFields window = .ok (fields, ending)) :
    ending.tokens.length < window.tokens.length := by
  simp only [typedFields, bind, Except.bind, pure, Except.pure] at read
  split at read
  · simp at read
  · rename_i opened expected
    have shorter := length_expect expected
    split at read
    · simp at read
    · rename_i cut found
      have whole := congrArg List.length (Token.splitClose_eq found)
      simp only [Cut.all, List.length_append, List.length_cons] at whole
      have same : ending = ⟨cut.token.line, cut.after⟩ := by
        split at read
        · simp_all
        · split at read <;> simp_all
      subst same
      simp only
      omega

/-- After a tag fewer tokens are left. -/
theorem length_tag {window ending : Window} {result : Tag} (read : tag window = .ok (result, ending)) :
    ending.tokens.length < window.tokens.length := by
  simp only [tag, bind, Except.bind, pure, Except.pure] at read
  split at read
  · simp at read
  · rename_i named expected
    have shorter := length_expect expected
    split at read
    · split at read
      · simp at read
      · rename_i fields
        have further := length_typedFields fields
        simp only [Except.ok.injEq, Prod.mk.injEq] at read
        rw [← read.2]
        omega
    · simp only [Except.ok.injEq, Prod.mk.injEq] at read
      rw [← read.2]
      exact shorter

/-- Tags between bars, and the window after them. -/
def tags (window : Window) : Parsed (List Tag × Window) :=
  match _read : tag window with
  | .error error => .error error
  | .ok (first, ending) =>
    match ending.nextKind with
    | some .pipe => do
      let (others, final) ← tags ⟨ending.line, ending.tokens.tail⟩
      return (first :: others, final)
    | _ => .ok ([first], ending)
termination_by window.tokens.length
decreasing_by
  have := length_tag _read
  simp only [List.length_tail]
  omega

/-- A union type after its `type`. -/
def unionType (window : Window) : Parsed Block := do
  let (name, rest) ← window.expect .identifier .afterType
  let (parameters, rest) := rest.takeNames
  let (_, rest) ← rest.expect .assign (.afterTypeName name.body)
  let (tags, rest) ← tags rest
  rest.expectEnd .unionType
  return .union ⟨.named name.body (parameters.map Ty.variable), tags⟩

/-- An alias after its `type alias`. -/
def typeAlias (window : Window) : Parsed Block := do
  let (name, rest) ← window.expect .identifier .afterAlias
  let (parameters, rest) := rest.takeNames
  let (_, rest) ← rest.expect .assign (.afterAliasName name.body)
  let (properties, rest) ← typedFields rest
  rest.expectEnd .typeAlias
  return .alias ⟨.named name.body (parameters.map Ty.variable), properties⟩

/-! ## Definitions -/

/-- The parameters of a signature, the first of them with the names of the definition. -/
def nameParameters : Nat → List String → List Ty → List Parameter
  | _, _, [] => []
  | index, [], type :: types => .anonymous index type :: nameParameters (index + 1) [] types
  | index, name :: names, type :: types =>
    .named name type :: nameParameters (index + 1) names types

/-- A definition without a signature. -/
def untyped (name : String) (arguments : List String) (body : Body) : Block :=
  match arguments with
  | [] => .constant ⟨name, .any, body⟩
  | arguments =>
    .function ⟨name, .any, arguments.map fun argument => .named argument .any, body⟩

/-- A definition with the types of its signature. -/
def typed (name : String) (line : Nat) (types : List Ty) (arguments : List String) (body : Body) :
    Parsed Block :=
  match arguments with
  | [] => .ok (.constant ⟨name, typeOfParts types, body⟩)
  | arguments =>
    let declared := types.dropLast
    if declared.length < arguments.length then
      .error ⟨.tooManyArguments name arguments.length declared.length, line⟩
    else
      .ok (.function ⟨name, types.getLast?.getD .any, nameParameters 0 arguments declared, body⟩)

/-- The types of the signature, if there is one, and the window after the defined name. -/
def optionalSignature (name : Token) (window : Window) : Parsed (Option (List Ty) × Window) :=
  match window.tokens with
  | [] => .ok (none, window)
  | colon :: rest =>
    if colon.kind == .colon then
      match Token.splitDefinition name.body colon rest with
      | none => .error ⟨.missingDefinition name.body, name.line⟩
      | some cut => do
        let types ← signature cut.inside
        return (some types, ⟨cut.token.line, cut.after⟩)
    else .ok (none, window)

/-- The definition of a function or a constant, `name` being its first token. -/
def definition (body : Window → Parsed Body) (name : Token) (window : Window) : Parsed Block := do
  let (types?, rest) ← optionalSignature name window
  let (arguments, rest) := rest.takeNames
  let (_, rest) ← rest.expect .assign (.inDefinition name.body)
  let body ← body rest
  match types? with
  | none => return untyped name.body arguments body
  | some types => typed name.body name.line types arguments body

/-- The declaration in a window, with the reader of bodies given. -/
def blockWith (body : Window → Parsed Body) (window : Window) : Parsed Block :=
  match window.tokens with
  | [] => window.error .missingDeclaration
  | token :: rest =>
    let after : Window := ⟨token.line, rest⟩
    match token.kind with
    | .keyword .importWord => importing token after
    | .keyword .exposingWord => exposing after
    | .keyword .typeWord =>
      match after.nextKind with
      | some (.keyword .aliasWord) => typeAlias ⟨after.line, rest.tail⟩
      | _ => unionType after
    | .identifier => definition body token after
    | .unknown => window.error (.unrecognised token.body)
    | _ => window.error (.noDeclaration token.body)

/-! ## Local definitions -/

/-- The declaration is one that a `let` may hold. -/
def isDefinition : Block → Bool
  | .function _ | .constant _ => true
  | _ => false

/-- A definition in a `let`. -/
def localDefinition (body : Window → Parsed Body) (window : Window) : Parsed Block := do
  let block ← blockWith body window
  if isDefinition block then return block else window.error .noLocal

/-- The definitions of a `let`. -/
def localDefinitions (body : Window → Parsed Body) (window : Window) : Parsed (List Block) :=
  if window.tokens.isEmpty then window.error .missingLocal
  else (splitBlocks window).mapM (localDefinition body)

/-- The whole window as an expression, perhaps after a `let`, with the readers of nested windows given. -/
def bodyStep (nested : Nested) (window : Window) : Parsed Body :=
  match window.tokens with
  | [] => window.error .missingExpression
  | token :: rest =>
    if token.kind == .keyword .letWord then
      match Token.splitKeyword .inWord .letWord .inWord 0 rest with
      | none => window.error .missingIn
      | some cut => do
        let locals ← localDefinitions nested.body ⟨token.line, cut.inside⟩
        let result ← nested.expression ⟨cut.token.line, cut.after⟩
        return ⟨locals, result⟩
    else do
      let result ← expressionStep nested window
      return ⟨[], result⟩

/-! ## The knot -/

mutual

/-- The whole window as one expression that nests at most so deep. -/
def expressionAt : Nat → Window → Parsed Expression
  | 0, window => window.error .missingExpression
  | depth + 1, window => expressionStep ⟨expressionAt depth, bodyAt depth⟩ window

/-- The whole window as a body that nests at most so deep. -/
def bodyAt : Nat → Window → Parsed Body
  | 0, window => window.error .missingExpression
  | depth + 1, window => bodyStep ⟨expressionAt depth, bodyAt depth⟩ window

end

/-- The whole window as one expression. A window of weight zero is empty, and so has no expression. -/
def expression (window : Window) : Parsed Expression :=
  expressionAt window.weight window

/-- The whole window as an expression with the definitions local to it. -/
def body (window : Window) : Parsed Body :=
  bodyAt window.weight window

/-- The whole window as one declaration. -/
def block (window : Window) : Parsed Block :=
  blockWith body window

end DerwLang.Grammar
