/-
**The canonical layout as documents.**

For every text of the canonical layout here is the document that it is the text of. The documents are put together from a
few pieces, words beside and below each other and in brackets, in the order in which the texts are.
-/

import DerwLang.Canonical.Layout
import DerwLang.Proofs.Layout.Doc

namespace DerwLang

namespace Doc

/-! ## Pieces -/

/-- A single word. -/
def single (kind : Token.Kind) (own : List Char) : Doc :=
  .word kind own .done

/-- The words that a text is read as, without a space between them. -/
def words (text : String) : Doc :=
  (Lexeme.scan text.toList).foldr (fun lexeme rest => .word lexeme.kind lexeme.chars rest) .done

/-- One document after the other on the same line. -/
def beside (first second : Doc) : Doc :=
  first ++ .space second

/-- One document below the other. -/
def under (blank : Bool) (indent : Nat) (first second : Doc) : Doc :=
  first ++ .line blank indent second

/-- A document with a comma after it. -/
def comma (doc : Doc) : Doc :=
  doc ++ single .comma [',']

/-- A document with a colon after it. -/
def label (doc : Doc) : Doc :=
  doc ++ single .colon [':']

/-- A document in round brackets. -/
def round (inside : Doc) : Doc :=
  .word .openBracket ['('] (inside ++ single .closeBracket [')'])

/-- A document in curly brackets. -/
def curly (inside : Doc) : Doc :=
  .word .openCurly ['\x7b'] (.space (inside ++ .space (single .closeCurly ['\x7d'])))

/-- A document in curly brackets that stand on other lines. -/
def curlyLines (inside : Doc) : Doc :=
  .word .openCurly ['\x7b'] (.line false 4 (inside ++ .line false 0 (single .closeCurly ['\x7d'])))

/-- A list literal with something in it. -/
def bracketed (inside : Doc) : Doc :=
  .list (.space (inside ++ .space .done)) .done

/-- Documents with the same thing between each two of them. -/
def joined (glue : Doc → Doc → Doc) : List Doc → Doc
  | [] => .done
  | [doc] => doc
  | doc :: next :: rest => glue doc (joined glue (next :: rest))

/-- A comma and a space between. -/
def commas (first second : Doc) : Doc :=
  first.comma.beside second

/-- A comma and a new line between. -/
def commaLines (first second : Doc) : Doc :=
  first.comma.under false 4 second

/-- An empty line between. -/
def blankLines (first second : Doc) : Doc :=
  first.under true 0 second

/-- An arrow between. -/
def arrows (first second : Doc) : Doc :=
  first.beside ((single .arrow ['-', '>']).beside second)

/-- The sign of lists between. -/
def conses (first second : Doc) : Doc :=
  first.beside ((single (.operator .cons) [':', ':']).beside second)

/-- A new line and a bar between. -/
def bars (first second : Doc) : Doc :=
  first.under false 4 ((single .pipe ['|']).beside second)

/-- A reserved word. -/
def keyword (word : Keyword) : Doc :=
  single (.keyword word) word.spelling.toList

/-- What comes after a line feed, one level in. -/
def above (first second : Doc) : Doc :=
  first.under false 4 (second.shift 1)

end Doc

namespace Written

open Doc

/-! ## Types -/

mutual

/-- A type. -/
def type : Ty → Doc
  | .variable name => words name
  | .named name arguments => joined beside (words name :: typeArguments arguments)
  | .function parts => joined arrows (typeParts parts)

/-- The arguments of a named type. -/
def typeArguments : List Ty → List Doc
  | [] => []
  | argument :: rest =>
    (if argument.isCompound then round (type argument) else type argument) :: typeArguments rest

/-- The parts of a function type. -/
def typeParts : List Ty → List Doc
  | [] => []
  | part :: rest => (if part.isFunction then round (type part) else type part) :: typeParts rest

end

/-! ## Patterns -/

/-- A text between double quotes. -/
def quoted (text : String) : Doc :=
  single .string (Text.quoted text).toList

/-- A text between backticks. -/
def backquoted (text : String) : Doc :=
  single .formatString (Text.backquoted text).toList

/-- A tag with its fields. -/
def tagPattern (pattern : TagPattern) : Doc :=
  (words pattern.tag).beside
    (if pattern.fields.isEmpty then .word .openCurly ['\x7b'] (single .closeCurly ['\x7d'])
    else curly (joined commas (pattern.fields.map words)))

/-- One part of a list pattern. -/
def listPart : ListPart → Doc
  | .emptyList => .list .done .done
  | .string text => quoted text
  | .formatString text => backquoted text
  | .name name => words name
  | .tag pattern => tagPattern pattern

/-- A pattern. -/
def pattern : Pattern → Doc
  | .tag pattern => tagPattern pattern
  | .string text => quoted text
  | .formatString text => backquoted text
  | .emptyList => .list .done .done
  | .list parts => joined conses (parts.map listPart)
  | .otherwise => keyword .defaultWord

/-! ## Declarations without expressions -/

/-- A list of names in round brackets. -/
def nameList (names : List String) : Doc :=
  if names.isEmpty then .word .openBracket ['('] (single .closeBracket [')'])
  else round (joined commas (names.map words))

/-- One imported module. -/
def importLine (imported : ImportedModule) : Doc :=
  let name := match imported.origin with
    | .library => words imported.name
    | .path => quoted imported.name
  let known := match imported.alias? with
    | none => []
    | some name => [keyword .asWord, words name]
  let used :=
    if imported.exposing.isEmpty then [] else [keyword .exposingWord, nameList imported.exposing]
  joined beside (keyword .importWord :: name :: (known ++ used))

/-- A name and its type. -/
def typedField (field : TypedField) : Doc :=
  (label (words field.name)).beside (type field.type)

/-- A tag of a union type. -/
def tag (tag : Tag) : Doc :=
  if tag.fields.isEmpty then words tag.name
  else (words tag.name).beside (curly (joined commas (tag.fields.map typedField)))

/-- The sign of definitions. -/
def assign : Doc :=
  single .assign ['=']

/-- A union type, a tag to a line. -/
def unionType (declared : UnionType) : Doc :=
  ((keyword .typeWord).beside ((type declared.type).beside assign)).under false 4
    (joined bars (declared.tags.map tag))

/-- An alias, a property to a line. -/
def typeAlias (declared : TypeAlias) : Doc :=
  (keyword .typeWord).beside ((keyword .aliasWord).beside ((type declared.type).beside (assign.beside
    (if declared.properties.isEmpty then .word .openCurly ['\x7b'] (.space (single .closeCurly ['\x7d']))
    else curlyLines (joined commaLines (declared.properties.map typedField))))))

/-- A definition after its signature, which is left out when nothing is known of the types. -/
def signed (known : Bool) (name : String) (declared : Ty) (definition : Doc) : Doc :=
  if known then ((label (words name)).beside (type declared)).under false 0 definition else definition

/-- The names of those arguments that have one. -/
def argumentNames (parameters : List Parameter) : List String :=
  parameters.filterMap fun
    | .named argument _ => some argument
    | .anonymous _ _ => none

/-! ## Expressions and definitions -/

/-- The document of an operand, in brackets where it needs them. -/
def operand (parent : BinaryOperator) (side : Associativity) (operand : Expression) (doc : Doc) : Doc :=
  if Canonical.operandNeedsBrackets parent side operand then round doc else doc

/-- The document of an argument, in brackets unless it is atomic. -/
def argument (argument : Expression) (doc : Doc) : Doc :=
  if Canonical.isAtomic argument then doc else round doc

/-- A value of another module, under its whole name. -/
def whole (path : List String) (name : String) : String :=
  String.intercalate "." path ++ "." ++ name

/-- A record literal. -/
def recordLiteral (entries : List Doc) : Doc :=
  if entries.isEmpty then .word .openCurly ['\x7b'] (.space (single .closeCurly ['\x7d']))
  else curly (joined commas entries)

/-- An expression after its local definitions. -/
def body (locals : List Doc) (result : Doc) : Doc :=
  if locals.isEmpty then result
  else (above (keyword .letWord) (joined blankLines locals)).under false 0 (above (keyword .inWord) result)

mutual

/-- An expression. -/
def expression : Expression → Doc
  | .value text => words text
  | .string text => quoted text
  | .formatString text => backquoted text
  | .list [] => .list (.space .done) .done
  | .list (item :: items) => bracketed (joined commas (expressions (item :: items)))
  | .range first last =>
    bracketed (words first ++ .word (.operator .range) ['.', '.'] (words last))
  | .record ⟨base, fields⟩ => recordLiteral ((base.toList.map words) ++ recordFields fields)
  | .conditional predicate whenTrue whenFalse =>
    (above ((keyword .ifWord).beside ((expression predicate).beside (keyword .thenWord))) (bodyOf whenTrue)).under
      false 0 (above (keyword .elseWord) (bodyOf whenFalse))
  | .caseOf predicate cases =>
    above ((keyword .caseWord).beside ((expression predicate).beside (keyword .ofWord)))
      (joined blankLines (branches cases))
  | .binary operator left right =>
    (operand operator .left left (expression left)).beside
      ((single (.operator operator.sign) operator.symbol.toList).beside
        (operand operator .right right (expression right)))
  | .call name items => joined beside (words name :: arguments items)
  | .lambda ⟨parameters, result⟩ =>
    .word .backslash ['\\'] ((joined beside (parameters.map words)).beside
      ((single .arrow ['-', '>']).beside (expression result)))
  | .lambdaCall _ _ => .done
  | .construct tag ⟨base, fields⟩ =>
    (words tag).beside (recordLiteral ((base.toList.map words) ++ recordFields fields))
  | .reference path (.value name) => words (whole path name)
  | .reference path (.call name items) => joined beside (words (whole path name) :: arguments items)
  | .reference _ _ => .done

/-- Several expressions. -/
def expressions : List Expression → List Doc
  | [] => []
  | item :: rest => expression item :: expressions rest

/-- Several arguments. -/
def arguments : List Expression → List Doc
  | [] => []
  | item :: rest => argument item (expression item) :: arguments rest

/-- The fields of a record literal. -/
def recordFields : List Field → List Doc
  | [] => []
  | ⟨name, value⟩ :: rest => (label (words name)).beside (expression value) :: recordFields rest

/-- The branches of a case. -/
def branches : List Branch → List Doc
  | [] => []
  | ⟨shape, result⟩ :: rest =>
    above ((pattern shape).beside (single .arrow ['-', '>'])) (bodyOf result) :: branches rest

/-- An expression with the definitions local to it. -/
def bodyOf : Body → Doc
  | ⟨locals, result⟩ => body (blocks locals) (expression result)

/-- A declaration. -/
def block : Block → Doc
  | .imports modules => joined (under false 0) (modules.map importLine)
  | .exports names => (keyword .exposingWord).beside (nameList names)
  | .union declared => unionType declared
  | .alias declared => typeAlias declared
  | .function ⟨name, returnType, parameters, result⟩ =>
    let types := parameters.map Parameter.type ++ [returnType]
    signed (!types.all Ty.isAny) name (.function types)
      (above ((joined beside (words name :: (argumentNames parameters).map words)).beside assign) (bodyOf result))
  | .constant ⟨name, declared, value⟩ =>
    signed (!declared.isAny) name declared (above ((words name).beside assign) (bodyOf value))
  | .comment text => single .comment text.toList
  | .multilineComment text => single .multilineComment text.toList

/-- Several declarations. -/
def blocks : List Block → List Doc
  | [] => []
  | declaration :: rest => block declaration :: blocks rest

end

theorem typeArguments_eq (arguments : List Ty) :
    typeArguments arguments = arguments.map fun argument =>
      if argument.isCompound then round (type argument) else type argument := by
  induction arguments <;> simp_all [typeArguments]

theorem typeParts_eq (parts : List Ty) :
    typeParts parts = parts.map fun part => if part.isFunction then round (type part) else type part := by
  induction parts <;> simp_all [typeParts]

theorem expressions_eq (items : List Expression) : expressions items = items.map expression := by
  induction items <;> simp_all [expressions]

theorem arguments_eq (items : List Expression) :
    arguments items = items.map fun item => argument item (expression item) := by
  induction items <;> simp_all [arguments]

theorem recordFields_eq (fields : List Field) :
    recordFields fields = fields.map fun field => (label (words field.name)).beside (expression field.value) := by
  induction fields with
  | nil => rfl
  | cons field rest step =>
    cases field
    simp [recordFields, step]

theorem branches_eq (cases : List Branch) :
    branches cases = cases.map fun branch =>
      above ((pattern branch.pattern).beside (single .arrow ['-', '>'])) (bodyOf branch.body) := by
  induction cases with
  | nil => rfl
  | cons branch rest step =>
    cases branch
    simp [branches, step]

theorem blocks_eq (declarations : List Block) : blocks declarations = declarations.map block := by
  induction declarations <;> simp_all [blocks]

/-! ## Modules -/

/-- Declarations after an earlier one: imports stand line on line, others have an empty line between them. -/
def following : Block → List Block → Doc
  | _, [] => .done
  | previous, next :: rest =>
    .line (!(Canonical.isImport previous && Canonical.isImport next)) 0 (block next ++ following next rest)

/-- The declarations of a module. -/
def declarations : List Block → Doc
  | [] => .done
  | first :: rest => block first ++ following first rest

end Written

end DerwLang
