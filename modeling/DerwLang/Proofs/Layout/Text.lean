/-
**The texts of the canonical layout are those of its documents.**

For each piece of syntax two things are shown side by side: the document has the text that the layout writes, and where
the syntax is sound the document is a phrase. They go together because text is moved in as a whole (`Text.indent`), and
for phrases that is moving the document in.
-/

import DerwLang.Proofs.Layout.Phrase
import DerwLang.Proofs.Layout.Sound

namespace DerwLang

open Layout

namespace Doc

/-! ## Pieces -/

@[simp]
theorem chars_single (kind : Token.Kind) (own : List Char) : (single kind own).chars = own := by
  simp [single]

@[simp]
theorem chars_words (text : String) : (words text).chars = text.toList := by
  have all : ∀ lexemes : List Lexeme,
      (lexemes.foldr (fun lexeme rest => word lexeme.kind lexeme.chars rest) done).chars =
        lexemes.flatMap Lexeme.chars := by
    intro lexemes
    induction lexemes with
    | nil => rfl
    | cons lexeme rest step => simp [step]
  rw [words, all, Lexeme.chars_scan]

@[simp]
theorem chars_beside (first second : Doc) : (first.beside second).chars = first.chars ++ ' ' :: second.chars := by
  simp [beside]

@[simp]
theorem chars_under (blank : Bool) (indent : Nat) (first second : Doc) :
    (first.under blank indent second).chars = first.chars ++ (lineChars blank indent ++ second.chars) := by
  simp [under]

@[simp]
theorem chars_comma (doc : Doc) : doc.comma.chars = doc.chars ++ [','] := by
  simp [comma]

@[simp]
theorem chars_label (doc : Doc) : doc.label.chars = doc.chars ++ [':'] := by
  simp [label]

@[simp]
theorem chars_round (inside : Doc) : (round inside).chars = '(' :: (inside.chars ++ [')']) := by
  simp [round]

@[simp]
theorem chars_curly (inside : Doc) : (curly inside).chars = '\x7b' :: ' ' :: (inside.chars ++ [' ', '\x7d']) := by
  simp [curly]

@[simp]
theorem chars_bracketed (inside : Doc) : (bracketed inside).chars = '[' :: ' ' :: (inside.chars ++ [' ', ']']) := by
  simp [bracketed]

/-- Documents with the same thing between each two of them have a text with the same characters between. -/
theorem chars_joined {glue : Doc → Doc → Doc} {between : List Char}
    (glued : ∀ first second : Doc, (glue first second).chars = first.chars ++ (between ++ second.chars))
    (docs : List Doc) : (joined glue docs).chars = List.intercalate between (docs.map chars) := by
  induction docs with
  | nil => rfl
  | cons doc rest step =>
    cases rest with
    | nil => simp [joined]
    | cons next more =>
      rw [joined, glued, step]
      simp [List.intercalate_cons_cons]

theorem chars_joined_commas (docs : List Doc) :
    (joined commas docs).chars = List.intercalate [',', ' '] (docs.map chars) :=
  chars_joined (fun first second => by simp [commas]) docs

theorem chars_joined_beside (docs : List Doc) :
    (joined beside docs).chars = List.intercalate [' '] (docs.map chars) :=
  chars_joined (fun first second => by simp) docs

theorem chars_joined_blankLines (docs : List Doc) :
    (joined blankLines docs).chars = List.intercalate ['\n', '\n'] (docs.map chars) :=
  chars_joined (fun first second => by simp [blankLines, lineChars]) docs

theorem chars_joined_arrows (docs : List Doc) :
    (joined arrows docs).chars = List.intercalate [' ', '-', '>', ' '] (docs.map chars) :=
  chars_joined (fun first second => by simp [arrows]) docs

/-! ## Phrases -/

theorem words_of_isWord {kind : Token.Kind} {text : String} (isWord : IsWord kind text.toList) :
    words text = single kind text.toList := by
  rw [words, isWord]
  rfl

/-- A name is a phrase. -/
theorem phrase_name {commas : Bool} {text : String} (name : Sound.Name text) : Phrase commas (words text) := by
  rw [words_of_isWord name]
  exact .word rfl rfl name

theorem phrase_keyword {commas : Bool} {word : Keyword} (plain : isPlainKind (.keyword word) = true) :
    Phrase commas (keyword word) :=
  .word rfl plain (isWord_keyword word)

/-- Phrases joined in a way that makes phrases are a phrase. -/
theorem phrase_joined {commas : Bool} {glue : Doc → Doc → Doc}
    (glued : ∀ {first second : Doc}, Phrase commas first → Phrase commas second → Phrase commas (glue first second))
    {docs : List Doc} (some_ : docs ≠ []) (phrases : ∀ doc ∈ docs, Phrase commas doc) :
    Phrase commas (joined glue docs) := by
  induction docs with
  | nil => exact absurd rfl some_
  | cons doc rest step =>
    rw [List.forall_mem_cons] at phrases
    cases rest with
    | nil => exact phrases.1
    | cons next more => exact glued phrases.1 (step (by simp) phrases.2)

theorem phrase_commas {first second : Doc} (one : Phrase true first) (two : Phrase true second) :
    Phrase true (commas first second) :=
  .beside (.comma one) two

theorem phrase_commaLines {first second : Doc} (one : Phrase true first) (two : Phrase true second) :
    Phrase true (commaLines first second) :=
  .under false 4 (.comma one) two

theorem phrase_beside {commas : Bool} {first second : Doc} (one : Phrase commas first) (two : Phrase commas second) :
    Phrase commas (first.beside second) :=
  .beside one two

theorem phrase_blankLines {commas : Bool} {first second : Doc} (one : Phrase commas first)
    (two : Phrase commas second) : Phrase commas (blankLines first second) :=
  .under true 0 one two

theorem phrase_arrows {commas : Bool} {first second : Doc} (one : Phrase commas first) (two : Phrase commas second) :
    Phrase commas (arrows first second) :=
  .beside one (.beside (.sign (by decide) rfl) two)

theorem phrase_conses {commas : Bool} {first second : Doc} (one : Phrase commas first) (two : Phrase commas second) :
    Phrase commas (conses first second) :=
  .beside one (.beside (.sign (by decide) rfl) two)

theorem phrase_bars {commas : Bool} {first second : Doc} (one : Phrase commas first) (two : Phrase commas second) :
    Phrase commas (bars first second) :=
  .under false 4 one (.beside (.sign (by decide) rfl) two)

end Doc

open Doc

namespace Written

/-! ## Types -/

mutual

/-- The text of a type. -/
theorem chars_type : ∀ t : Ty, (type t).chars = (t.write id).toList
  | .variable name => by simp [type, Ty.write]
  | .named name arguments => by
    rw [type, chars_joined_beside, List.map_cons, intercalate_cons, List.flatMap_map, Ty.write, String.toList_append,
      ← chars_typeArguments arguments]
    simp
  | .function parts => by
    rw [type, chars_joined_arrows, chars_typeParts parts, Ty.write, String.toList_intercalate]
    rfl

theorem chars_typeArguments : ∀ arguments : List Ty,
    (typeArguments arguments).flatMap (fun doc => ' ' :: doc.chars) = (Ty.writeArguments id arguments).toList
  | [] => rfl
  | argument :: rest => by
    have later := chars_typeArguments rest
    have first := chars_type argument
    rw [typeArguments, List.flatMap_cons, later, Ty.writeArguments]
    split <;> simp [first, Text.parenthesised]

theorem chars_typeParts : ∀ parts : List Ty,
    (typeParts parts).map Doc.chars = (Ty.writeParts id parts).map String.toList
  | [] => rfl
  | part :: rest => by
    have later := chars_typeParts rest
    have first := chars_type part
    rw [typeParts, List.map_cons, later, Ty.writeParts]
    split <;> simp [first, Text.parenthesised]

end

mutual

/-- A type is a phrase. -/
theorem phrase_type {commas : Bool} : ∀ t : Ty, Sound.Annotation t → Phrase commas (type t)
  | .variable _, sound => phrase_name sound.1
  | .named name arguments, sound => by
    refine phrase_joined phrase_beside (by simp) ?_
    rw [List.forall_mem_cons]
    exact ⟨phrase_name sound.1, phrase_typeArguments arguments sound.2.2⟩
  | .function parts, sound => by
    refine phrase_joined phrase_arrows ?_ (phrase_typeParts parts sound.2)
    cases parts with
    | nil => exact absurd sound.1 (by simp)
    | cons part rest => simp [typeParts]

theorem phrase_typeArguments {commas : Bool} : ∀ arguments : List Ty, Sound.Annotations arguments →
    ∀ doc ∈ typeArguments arguments, Phrase commas doc
  | [], _ => by simp [typeArguments]
  | argument :: rest, sound => by
    rw [typeArguments, List.forall_mem_cons]
    refine ⟨?_, phrase_typeArguments rest sound.2⟩
    split
    · exact .round (phrase_type argument sound.1)
    · exact phrase_type argument sound.1

theorem phrase_typeParts {commas : Bool} : ∀ parts : List Ty, Sound.Annotations parts →
    ∀ doc ∈ typeParts parts, Phrase commas doc
  | [], _ => by simp [typeParts]
  | part :: rest, sound => by
    rw [typeParts, List.forall_mem_cons]
    refine ⟨?_, phrase_typeParts rest sound.2⟩
    split
    · exact .round (phrase_type part sound.1)
    · exact phrase_type part sound.1

end

/-! ## Patterns -/

theorem map_chars_words (names : List String) : (names.map words).map Doc.chars = names.map String.toList := by
  simp [Function.comp_def]

/-- A list of names with commas is a phrase. -/
theorem phrase_names {names : List String} (some_ : names ≠ []) (sound : ∀ name ∈ names, Sound.Name name) :
    Phrase true (joined commas (names.map words)) := by
  refine phrase_joined phrase_commas (by simpa using some_) ?_
  simp only [List.forall_mem_map]
  exact fun name member => phrase_name (sound name member)

/-- Names with a space between are a phrase. -/
theorem phrase_spacedNames {commas : Bool} {names : List String} (some_ : names ≠ [])
    (sound : ∀ name ∈ names, Sound.Name name) : Phrase commas (joined beside (names.map words)) := by
  refine phrase_joined phrase_beside (by simpa using some_) ?_
  simp only [List.forall_mem_map]
  exact fun name member => phrase_name (sound name member)

theorem chars_tagPattern (shape : TagPattern) :
    (tagPattern shape).chars = (Canonical.tagPattern shape).toList := by
  rw [tagPattern, Canonical.tagPattern]
  split
  · simp
  · rw [chars_beside, chars_curly, chars_joined_commas, map_chars_words]
    simp [Text.braced, Text.commaSeparated]

theorem phrase_tagPattern {commas : Bool} {shape : TagPattern} (sound : Sound.TagPattern shape) :
    Phrase commas (tagPattern shape) := by
  refine .beside (phrase_name sound.1) ?_
  split
  · exact .noCurly
  · rename_i some_
    exact .curly (phrase_names (by simpa using some_) sound.2.2)

theorem chars_listPart (part : ListPart) : (listPart part).chars = (Canonical.listPart part).toList := by
  cases part with
  | emptyList => rfl
  | string text => exact chars_single _ _
  | formatString text => exact chars_single _ _
  | name name => exact chars_words name
  | tag shape => exact chars_tagPattern shape

theorem phrase_listPart {commas : Bool} {part : ListPart} (sound : Sound.ListPart part) :
    Phrase commas (listPart part) := by
  cases part with
  | emptyList => exact .noList
  | string text => exact .word rfl rfl sound
  | formatString text => exact .word rfl rfl sound
  | name name => exact phrase_name sound.1
  | tag shape => exact phrase_tagPattern sound

theorem chars_joined_conses (docs : List Doc) :
    (joined conses docs).chars = List.intercalate [' ', ':', ':', ' '] (docs.map Doc.chars) :=
  chars_joined (fun first second => by simp [conses]) docs

/-- The text of a pattern. -/
theorem chars_pattern (shape : Pattern) : (pattern shape).chars = (Canonical.pattern shape).toList := by
  cases shape with
  | tag shape => exact chars_tagPattern shape
  | string text => exact chars_single _ _
  | formatString text => exact chars_single _ _
  | emptyList => rfl
  | list parts =>
    rw [pattern, chars_joined_conses, Canonical.pattern, String.toList_intercalate, List.map_map, List.map_map]
    simp only [Function.comp_def, chars_listPart]
    rfl
  | otherwise => rfl

/-- A pattern is a phrase. -/
theorem phrase_pattern {commas : Bool} {shape : Pattern} (sound : Sound.Pattern shape) :
    Phrase commas (pattern shape) := by
  cases shape with
  | tag shape => exact phrase_tagPattern sound
  | string text => exact .word rfl rfl sound
  | formatString text => exact .word rfl rfl sound
  | emptyList => exact .noList
  | list parts =>
    refine phrase_joined phrase_conses ?_ ?_
    · intro none_
      have length := sound.1
      simp [List.map_eq_nil_iff.mp none_] at length
    · simp only [List.forall_mem_map]
      exact fun part member => phrase_listPart (sound.2.1 part member)
  | otherwise => exact phrase_keyword rfl

/-! ## Declarations without expressions -/

theorem chars_nameList (names : List String) :
    (nameList names).chars = (Text.parenthesised (Text.commaSeparated names)).toList := by
  rw [nameList]
  split
  · rename_i none_
    simp [List.isEmpty_iff.mp none_, Text.parenthesised, Text.commaSeparated]
  · rw [chars_round, chars_joined_commas, map_chars_words]
    simp [Text.parenthesised, Text.commaSeparated]

theorem phrase_nameList {commas : Bool} {names : List String} (sound : ∀ name ∈ names, Sound.Name name) :
    Phrase commas (nameList names) := by
  rw [nameList]
  split
  · exact .noRound
  · rename_i some_
    exact .round (phrase_names (by simpa using some_) sound)

theorem chars_importLine (imported : ImportedModule) :
    (importLine imported).chars = (Canonical.importLine imported).toList := by
  rw [importLine, Canonical.importLine, ImportedModule.aliasClause, ImportedModule.exposingClause,
    chars_joined_beside, List.map_cons, List.map_cons, intercalate_cons, List.flatMap_cons]
  cases imported.origin <;> cases imported.alias? <;> cases empty : imported.exposing.isEmpty <;>
    simp [chars_nameList, quoted, keyword, Keyword.spelling]

theorem phrase_importLine {imported : ImportedModule} (sound : Sound.Imported imported) :
    Phrase false (importLine imported) := by
  obtain ⟨named, known, used⟩ := sound
  refine phrase_joined phrase_beside (by simp) ?_
  rw [List.forall_mem_cons, List.forall_mem_cons, List.forall_mem_append]
  refine ⟨phrase_keyword rfl, ?_, ?_, ?_⟩
  · cases origin : imported.origin with
    | library => exact phrase_name (by simpa [origin] using named)
    | path =>
      have quoted : Sound.Quoted imported.name := by simpa [origin] using named
      exact .word rfl rfl quoted
  · cases also : imported.alias? with
    | none => simp
    | some name =>
      rw [List.forall_mem_cons, List.forall_mem_singleton]
      exact ⟨phrase_keyword rfl, phrase_name (known name also)⟩
  · split
    · simp
    · rw [List.forall_mem_cons, List.forall_mem_singleton]
      exact ⟨phrase_keyword rfl, phrase_nameList used⟩

theorem chars_typedField (field : TypedField) :
    (typedField field).chars = (Canonical.typedField field).toList := by
  simp [typedField, Canonical.typedField, chars_type, Ty.text]

theorem phrase_typedField {commas : Bool} {field : TypedField} (sound : Sound.TypedField field) :
    Phrase commas (typedField field) := by
  refine .beside ?_ (phrase_type field.type sound.2)
  rw [words_of_isWord sound.1]
  exact .label sound.1

theorem chars_tag (declared : Tag) : (tag declared).chars = (Canonical.tag declared).toList := by
  rw [tag, Canonical.tag]
  split
  · simp
  · rw [chars_beside, chars_curly, chars_joined_commas]
    simp [Text.braced, Text.commaSeparated, Function.comp_def, chars_typedField]

theorem phrase_tag {commas : Bool} {declared : Tag} (sound : Sound.Tag declared) : Phrase commas (tag declared) := by
  rw [tag]
  split
  · exact phrase_name sound.1
  · rename_i some_
    refine .beside (phrase_name sound.1) (.curly (phrase_joined phrase_commas (by simpa using some_) ?_))
    simp only [List.forall_mem_map]
    exact fun field member => phrase_typedField (sound.2 field member)

/-- The name of a declared type with its parameters. -/
theorem type_declared (name : String) (parameters : List String) :
    type (.named name (parameters.map Ty.variable)) = joined beside ((name :: parameters).map words) := by
  have arguments : typeArguments (parameters.map Ty.variable) = parameters.map words := by
    induction parameters with
    | nil => rfl
    | cons parameter rest step => simp [typeArguments, step, Ty.isCompound, type]
  rw [type, arguments]
  rfl

theorem phrase_declared {commas : Bool} {declared : Ty} (sound : Sound.Declared declared) :
    Phrase commas (type declared) := by
  obtain ⟨name, parameters, rfl, isName, areNames⟩ := sound
  rw [type_declared]
  refine phrase_spacedNames (by simp) ?_
  rw [List.forall_mem_cons]
  exact ⟨isName, areNames⟩

theorem chars_unionType (declared : UnionType) :
    (unionType declared).chars = (Canonical.unionType declared).toList := by
  have glued : ∀ first second : Doc,
      (bars first second).chars = first.chars ++ ("\n    | ".toList ++ second.chars) := by
    intro first second
    simp [bars, lineChars, List.replicate]
  have tags : (joined bars (declared.tags.map tag)).chars =
      List.intercalate "\n    | ".toList (declared.tags.map fun declared => (Canonical.tag declared).toList) := by
    rw [chars_joined glued, List.map_map]
    simp only [Function.comp_def, chars_tag]
  rw [unionType, chars_under, tags, Canonical.unionType]
  simp [chars_type, Ty.text, assign, keyword, Keyword.spelling, lineChars, Text.indentation, List.replicate,
    Function.comp_def]

theorem phrase_unionType {declared : UnionType} (sound : Sound.Block (.union declared)) :
    Phrase false (unionType declared) := by
  obtain ⟨named, some_, tags⟩ := sound
  refine .under false 4 (.beside (phrase_keyword rfl) (.beside (phrase_declared named) (.sign (by decide) rfl))) ?_
  refine phrase_joined phrase_bars (by simpa using some_) ?_
  simp only [List.forall_mem_map]
  exact fun declared member => phrase_tag (tags declared member)

theorem chars_typeAlias (declared : TypeAlias) :
    (typeAlias declared).chars = (Canonical.typeAlias declared).toList := by
  have glued : ∀ first second : Doc,
      (commaLines first second).chars = first.chars ++ (",\n    ".toList ++ second.chars) := by
    intro first second
    simp [commaLines, lineChars, List.replicate]
  rw [typeAlias, Canonical.typeAlias]
  cases properties : declared.properties with
  | nil => simp [chars_type, Ty.text, assign, keyword, Keyword.spelling]
  | cons first rest =>
    simp only [List.isEmpty_cons, Bool.false_eq_true, if_false, chars_beside, curlyLines, Doc.chars_word,
      Doc.chars_line, Doc.chars_append, chars_joined glued, List.map_cons, intercalate_cons]
    simp [chars_type, Ty.text, assign, keyword, Keyword.spelling, chars_typedField, intercalate_cons, lineChars,
      List.replicate, Text.indentation, List.flatMap_map]

theorem phrase_typeAlias {declared : TypeAlias} (sound : Sound.Block (.alias declared)) :
    Phrase false (typeAlias declared) := by
  obtain ⟨named, properties⟩ := sound
  refine .beside (phrase_keyword rfl) (.beside (phrase_keyword rfl) (.beside (phrase_declared named)
    (.beside (.sign (by decide) rfl) ?_)))
  split
  · exact .emptyCurly
  · rename_i some_
    refine .curlyLines 4 0 (phrase_joined phrase_commaLines (by simpa using some_) ?_)
    simp only [List.forall_mem_map]
    exact fun field member => phrase_typedField (properties field member)

/-! ## Expressions -/

/-- The text of a document below another one is moved in. -/
theorem chars_above {commas : Bool} (first : Doc) {second : Doc} (phrase : Phrase commas second) {text : String}
    (same : second.chars = text.toList) :
    (above first second).chars = first.chars ++ '\n' :: (Text.indent text).toList := by
  have moved := phrase.indent_chars
  rw [same, String.ofList_toList] at moved
  rw [above, chars_under, moved]
  rfl

theorem phrase_above {commas : Bool} {first second : Doc} (one : Phrase commas first) (two : Phrase commas second) :
    Phrase commas (above first second) :=
  .under false 4 one (two.shift 1)

theorem canonical_expressions (items : List Expression) :
    Canonical.expressions items = items.map Canonical.expression := by
  induction items <;> simp_all [Canonical.expressions]

theorem canonical_arguments (items : List Expression) :
    Canonical.arguments items = items.map fun item => Canonical.argumentText item (Canonical.expression item) := by
  induction items <;> simp_all [Canonical.arguments]

theorem canonical_recordFields (fields : List Field) :
    Canonical.recordFields fields = fields.map fun field => field.name ++ ": " ++ Canonical.expression field.value := by
  induction fields with
  | nil => rfl
  | cons field rest step =>
    cases field
    simp [Canonical.recordFields, step]

theorem canonical_branches (cases : List Branch) :
    Canonical.branches cases = cases.map fun branch =>
      Canonical.pattern branch.pattern ++ " ->\n" ++ Text.indent (Canonical.body branch.body) := by
  induction cases with
  | nil => rfl
  | cons branch rest step =>
    cases branch
    simp [Canonical.branches, step]

theorem canonical_blocks (declarations : List Block) :
    Canonical.blocks declarations = declarations.map Canonical.block := by
  induction declarations <;> simp_all [Canonical.blocks]

/-- The document has the text, and it is a phrase. -/
def Fits (doc : Doc) (text : String) : Prop :=
  doc.chars = text.toList ∧ Phrase false doc

theorem Fits.of_eq {doc : Doc} {text other : String} (fits : Fits doc text) (same : text = other) : Fits doc other :=
  same ▸ fits

/-- A number with a minus before it is two words. -/
theorem words_negative {text : String} (negative : Sound.Negative text) :
    ∃ c rest, words text = .word (.operator .minus) ['-'] (.word .literal (c :: rest) .done) ∧
      c.isDigit = true ∧ IsWord .literal (c :: rest) ∧ text.toList = '-' :: c :: rest := by
  obtain ⟨c, rest, same, digit, isWord⟩ := negative
  refine ⟨c, rest, ?_, digit, isWord, same⟩
  have minus : Lexeme.scan ('-' :: c :: rest) = ⟨.operator .minus, ['-']⟩ :: Lexeme.scan (c :: rest) :=
    (Phrase.stands_minus digit rest).2
  rw [words, same, minus, isWord]
  rfl

theorem fits_value {text : String} (sound : Sound.Expression (.value text)) : Fits (words text) text := by
  refine ⟨chars_words text, ?_⟩
  rcases sound with ⟨name, -⟩ | ⟨isWord, -⟩ | negative
  · exact phrase_name name
  · rw [words_of_isWord isWord]
    exact .word rfl rfl isWord
  · obtain ⟨c, rest, same, digit, isWord, -⟩ := words_negative negative
    rw [same]
    exact .negative isWord digit

theorem fits_argument (item : Expression) {doc : Doc} {text : String} (fits : Fits doc text) :
    Fits (argument item doc) (Canonical.argumentText item text) := by
  rw [argument, Canonical.argumentText]
  split
  · exact fits
  · exact ⟨by simp [fits.1, Text.parenthesised], .round fits.2.weaken⟩

theorem fits_operand (parent : BinaryOperator) (side : Associativity) (item : Expression) {doc : Doc} {text : String}
    (fits : Fits doc text) : Fits (operand parent side item doc) (Canonical.operandText parent side item text) := by
  rw [operand, Canonical.operandText]
  split
  · exact ⟨by simp [fits.1, Text.parenthesised], .round fits.2.weaken⟩
  · exact fits

/-- The sign of an operator is a phrase. -/
theorem phrase_operator (operator : BinaryOperator) :
    Phrase false (single (.operator operator.sign) operator.symbol.toList) := by
  cases operator <;> exact .sign (by decide) rfl

/-- Fitting documents with commas between. -/
theorem fits_commas {α : Type} {doc : α → Doc} {text : α → String} {items : List α}
    (fits : ∀ item ∈ items, (doc item).chars = (text item).toList ∧ Phrase true (doc item)) (some_ : items ≠ []) :
    (joined commas (items.map doc)).chars = (Text.commaSeparated (items.map text)).toList ∧
      Phrase true (joined commas (items.map doc)) := by
  constructor
  · rw [chars_joined_commas, Text.commaSeparated, String.toList_intercalate, List.map_map, List.map_map]
    exact congrArg _ (List.map_congr_left fun item member => (fits item member).1)
  · refine phrase_joined phrase_commas (by simpa using some_) ?_
    simp only [List.forall_mem_map]
    exact fun item member => (fits item member).2

/-- Fitting documents with a space before each of them. -/
theorem fits_spaced {first : Doc} {name : String} (fitsFirst : Fits first name) {α : Type} {doc : α → Doc}
    {text : α → String} {items : List α} (fits : ∀ item ∈ items, Fits (doc item) (text item)) :
    Fits (joined beside (first :: items.map doc)) (name ++ String.join ((items.map text).map (" " ++ ·))) := by
  constructor
  · rw [chars_joined_beside, List.map_cons, intercalate_cons, List.flatMap_map, List.flatMap_map, String.toList_append,
      fitsFirst.1]
    congr 1
    induction items with
    | nil => rfl
    | cons item rest step =>
      rw [List.forall_mem_cons] at fits
      rw [List.flatMap_cons, step fits.2, fits.1.1]
      simp
  · refine phrase_joined phrase_beside (by simp) ?_
    rw [List.forall_mem_cons]
    refine ⟨fitsFirst.2, ?_⟩
    simp only [List.forall_mem_map]
    exact fun item member => (fits item member).2

theorem fits_recordLiteral {base : Option String} {fields : List Field} (sound : Sound.RecordLiteral ⟨base, fields⟩)
    (fits : ∀ field ∈ fields, Fits (expression field.value) (Canonical.expression field.value)) :
    Fits (recordLiteral ((base.toList.map words) ++ recordFields fields))
      (Canonical.recordLiteral ⟨base, fields⟩) := by
  have texts : ((base.toList.map words) ++ recordFields fields).map Doc.chars =
      (base.toList ++ Canonical.recordFields fields).map String.toList := by
    rw [recordFields_eq, canonical_recordFields, List.map_append, List.map_append, map_chars_words, List.map_map,
      List.map_map]
    congr 1
    refine List.map_congr_left fun field member => ?_
    simp [(fits field member).1]
  have phrases : ∀ doc ∈ (base.toList.map words) ++ recordFields fields, Phrase true doc := by
    rw [recordFields_eq, List.forall_mem_append, List.forall_mem_map, List.forall_mem_map]
    refine ⟨fun name member => phrase_name (sound.1 name (by simpa using member)), fun field member => ?_⟩
    refine .beside ?_ (fits field member).2.weaken
    rw [words_of_isWord (sound.2 field member)]
    exact .label (sound.2 field member)
  rw [recordLiteral, Canonical.recordLiteral]
  cases entries : (base.toList.map words) ++ recordFields fields with
  | nil =>
    rw [entries, List.map_nil, eq_comm, List.map_eq_nil_iff] at texts
    rw [texts]
    exact ⟨rfl, .emptyCurly⟩
  | cons doc rest =>
    rw [entries] at texts phrases
    cases written : base.toList ++ Canonical.recordFields fields with
    | nil => simp [written] at texts
    | cons entry others =>
      rw [written] at texts
      refine ⟨?_, .curly (phrase_joined phrase_commas (by simp) phrases)⟩
      simp only [List.isEmpty_cons, Bool.false_eq_true, if_false, chars_curly, chars_joined_commas, texts]
      simp [Text.braced, Text.commaSeparated]

/-- Declarations below each other with an empty line between. -/
theorem fits_blankLines {α : Type} {doc : α → Doc} {text : α → String} {items : List α}
    (fits : ∀ item ∈ items, Fits (doc item) (text item)) (some_ : items ≠ []) :
    Fits (joined blankLines (items.map doc)) (String.intercalate "\n\n" (items.map text)) := by
  constructor
  · rw [chars_joined_blankLines, String.toList_intercalate, List.map_map, List.map_map]
    exact congrArg _ (List.map_congr_left fun item member => (fits item member).1)
  · refine phrase_joined phrase_blankLines (by simpa using some_) ?_
    simp only [List.forall_mem_map]
    exact fun item member => (fits item member).2

theorem fits_above {first second : Doc} {before after : String} (one : Fits first before) (two : Fits second after) :
    Fits (above first second) (before ++ "\n" ++ Text.indent after) :=
  ⟨by rw [chars_above first two.2 two.1, one.1]; simp, phrase_above one.2 two.2⟩

/-- A definition with its signature, if it has one. -/
theorem fits_signed (known : Bool) {name : String} {declared : Ty} {definition : Doc} {text : String}
    (isName : Sound.Name name) (sound : known = true → Sound.Annotation declared) (fits : Fits definition text) :
    Fits (signed known name declared definition)
      ((if known then name ++ ": " ++ declared.text ++ "\n" else "") ++ text) := by
  rw [signed]
  split
  · rename_i isKnown
    refine ⟨by simp [chars_type, Ty.text, fits.1, lineChars], .under false 0 (.beside ?_ ?_) fits.2⟩
    · rw [words_of_isWord isName]
      exact .label isName
    · exact phrase_type declared (sound isKnown)
  · simpa using fits

theorem functionHead_eq (name : String) (parameters : List Parameter) :
    Canonical.functionHead name parameters =
      name ++ String.join ((argumentNames parameters).map (" " ++ ·)) := by
  rw [Canonical.functionHead]
  congr 1
  induction parameters with
  | nil => rfl
  | cons parameter rest step =>
    cases parameter <;> simp [argumentNames, String.join_cons, step]

/-- What is shown of each declaration: comments have their text, and all others are phrases besides. -/
def BlockFits (declaration : Block) : Prop :=
  (block declaration).chars = (Canonical.block declaration).toList ∧
    ((∀ text, declaration ≠ .comment text ∧ declaration ≠ .multilineComment text) → Phrase false (block declaration))

theorem BlockFits.of_fits {declaration : Block} (fits : Fits (block declaration) (Canonical.block declaration)) :
    BlockFits declaration :=
  ⟨fits.1, fun _ => fits.2⟩

theorem phrase_conditional {test yes no : Doc} (one : Phrase false test) (two : Phrase false yes)
    (three : Phrase false no) :
    Phrase false ((above ((keyword .ifWord).beside (test.beside (keyword .thenWord))) yes).under false 0
      (above (keyword .elseWord) no)) := by
  have phrase : Phrase false _ := .conditional 4 0 4 one (two.shift 1) (three.shift 1)
  simpa [above, under, beside, keyword, single, Keyword.spelling, Doc.append_assoc] using phrase

theorem phrase_caseOf {value branches : Doc} (one : Phrase false value) (two : Phrase false branches) :
    Phrase false (above ((keyword .caseWord).beside (value.beside (keyword .ofWord))) branches) := by
  have phrase : Phrase false _ := .caseOf 4 one (two.shift 1)
  simpa [above, under, beside, keyword, single, Keyword.spelling, Doc.append_assoc] using phrase

theorem phrase_letIn {locals result : Doc} (one : Phrase false locals) (two : Phrase false result) :
    Phrase false ((above (keyword .letWord) locals).under false 0 (above (keyword .inWord) result)) := by
  have phrase : Phrase false _ := .letIn 4 0 4 (one.shift 1) (two.shift 1)
  simpa [above, under, beside, keyword, single, Keyword.spelling, Doc.append_assoc] using phrase

/-! ## Constructs -/

section Constructs

attribute [local simp] expression Canonical.expression

/-- A range, with a name or a literal for each bound. -/
theorem fits_range {first last : String} (sound : Sound.Expression (.range first last)) :
    Fits (expression (.range first last)) (Canonical.expression (.range first last)) := by
  have isOpen : ∀ {text}, Sound.Name text ∨ IsWord .literal text.toList →
      ∃ kind, isOpenKind kind = true ∧ IsWord kind text.toList := by
    rintro text (name | literal)
    exacts [⟨_, rfl, name⟩, ⟨_, rfl, literal⟩]
  obtain ⟨kind, kindOpen, one⟩ := isOpen sound.1
  obtain ⟨kindLast, lastOpen, two⟩ := isOpen sound.2
  refine ⟨by simp, ?_⟩
  rw [expression, words_of_isWord one, words_of_isWord two]
  exact .range kindOpen lastOpen one two

/-- A list literal with something in it. -/
theorem fits_list {items : List Expression} (some_ : items ≠ [])
    (fits : ∀ item ∈ items, Fits (expression item) (Canonical.expression item)) :
    Fits (expression (.list items)) (Canonical.expression (.list items)) := by
  obtain ⟨item, rest, rfl⟩ := List.exists_cons_of_ne_nil some_
  have together := fits_commas (fun item member => (fits item member).imp_right Phrase.weaken) some_
  rw [expression, Canonical.expression, expressions_eq, canonical_expressions]
  refine ⟨?_, .list together.2⟩
  rw [chars_bracketed, together.1]
  simp

theorem fits_conditional {predicate : Expression} {whenTrue whenFalse : Body}
    (test : Fits (expression predicate) (Canonical.expression predicate))
    (yes : Fits (bodyOf whenTrue) (Canonical.body whenTrue))
    (no : Fits (bodyOf whenFalse) (Canonical.body whenFalse)) :
    Fits (expression (.conditional predicate whenTrue whenFalse))
      (Canonical.expression (.conditional predicate whenTrue whenFalse)) := by
  constructor
  · rw [expression, Canonical.expression, chars_under, chars_above _ yes.2 yes.1, chars_above _ no.2 no.1]
    simp [test.1, keyword, Keyword.spelling, lineChars]
  · exact phrase_conditional test.2 yes.2 no.2

/-- A branch is its pattern, an arrow, and its body below them. -/
theorem fits_branch {branch : Branch} (sound : Sound.Pattern branch.pattern)
    (fits : Fits (bodyOf branch.body) (Canonical.body branch.body)) :
    Fits (above ((pattern branch.pattern).beside (single .arrow ['-', '>'])) (bodyOf branch.body))
      (Canonical.pattern branch.pattern ++ " ->\n" ++ Text.indent (Canonical.body branch.body)) := by
  have shape : Fits ((pattern branch.pattern).beside (single .arrow ['-', '>']))
      (Canonical.pattern branch.pattern ++ " ->") :=
    ⟨by simp [chars_pattern], .beside (phrase_pattern sound) (.sign (by decide) rfl)⟩
  refine (fits_above shape fits).of_eq ?_
  simp [String.append_assoc]

theorem fits_caseOf {predicate : Expression} {branches : List Branch} (some_ : branches ≠ [])
    (value : Fits (expression predicate) (Canonical.expression predicate))
    (each : ∀ branch ∈ branches,
      Sound.Pattern branch.pattern ∧ Fits (bodyOf branch.body) (Canonical.body branch.body)) :
    Fits (expression (.caseOf predicate branches)) (Canonical.expression (.caseOf predicate branches)) := by
  have together : Fits (joined blankLines (Written.branches branches))
      (String.intercalate "\n\n" (Canonical.branches branches)) := by
    rw [branches_eq, canonical_branches]
    exact fits_blankLines (fun branch member => fits_branch (each branch member).1 (each branch member).2) some_
  refine ⟨?_, phrase_caseOf value.2 together.2⟩
  rw [expression, Canonical.expression, chars_above _ together.2 together.1]
  simp [value.1, keyword, Keyword.spelling]

theorem fits_lambda {parameters : List String} {result : Expression} (some_ : parameters ≠ [])
    (names : ∀ name ∈ parameters, Sound.Name name) (fits : Fits (expression result) (Canonical.expression result)) :
    Fits (expression (.lambda ⟨parameters, result⟩)) (Canonical.expression (.lambda ⟨parameters, result⟩)) := by
  constructor
  · rw [expression, Canonical.expression, Canonical.lambdaText, Doc.chars_word, chars_beside, chars_joined_beside,
      map_chars_words]
    simp [fits.1]
  · exact .lambda (.beside (phrase_spacedNames some_ names) (.beside (.sign (by decide) rfl) fits.2))

/-- A value of another module, which is a name or a call. -/
theorem fits_reference {path : List String} {value : Expression} (sound : Sound.Expression (.reference path value))
    (fits : ∀ name arguments, value = .call name arguments → ∀ argument ∈ arguments,
      Fits (expression argument) (Canonical.expression argument)) :
    Fits (expression (.reference path value)) (Canonical.expression (.reference path value)) := by
  cases value with
  | value name => exact ⟨by simp [whole], phrase_name sound.1⟩
  | call name arguments =>
    have spaced := fits_spaced ⟨chars_words (whole path name), phrase_name sound.1.1⟩
      fun argument member => fits_argument argument (fits name arguments rfl argument member)
    rw [expression, Canonical.expression, Canonical.expression, arguments_eq, canonical_arguments]
    refine spaced.of_eq ?_
    simp [whole, String.append_assoc]
  | _ => exact absurd sound id

/-- An expression below the definitions local to it. -/
theorem fits_bodyOf {locals : List Block} {result : Expression}
    (definitions : ∀ block ∈ locals, Grammar.isDefinition block = true)
    (each : ∀ block ∈ locals, BlockFits block) (fits : Fits (expression result) (Canonical.expression result)) :
    Fits (bodyOf ⟨locals, result⟩) (Canonical.body ⟨locals, result⟩) := by
  rw [bodyOf, Canonical.body, blocks_eq, canonical_blocks]
  cases locals with
  | nil => exact fits
  | cons first rest =>
    have fitsLocals : ∀ block ∈ first :: rest, Fits (Written.block block) (Canonical.block block) := by
      intro block member
      obtain ⟨same, phrase⟩ := each block member
      refine ⟨same, phrase fun text => ?_⟩
      have definition : Grammar.isDefinition block = true := definitions block member
      constructor <;> rintro rfl <;> simp [Grammar.isDefinition] at definition
    have together := fits_blankLines fitsLocals (List.cons_ne_nil first rest)
    refine ⟨?_, phrase_letIn together.2 fits.2⟩
    rw [body, if_neg (by simp), chars_under, chars_above _ together.2 together.1, chars_above _ fits.2 fits.1,
      List.map_cons, Canonical.bodyText]
    · simp [keyword, Keyword.spelling, lineChars]
    · simp

theorem fits_function {definition : FunctionDefinition} (sound : Sound.Block (.function definition))
    (fits : Fits (bodyOf definition.body) (Canonical.body definition.body)) :
    Fits (block (.function definition)) (Canonical.block (.function definition)) := by
  obtain ⟨name, returnType, parameters, body⟩ := definition
  obtain ⟨isName, result, shape⟩ := sound
  have head : Fits ((joined beside (words name :: (argumentNames parameters).map words)).beside assign)
      (Canonical.functionHead name parameters ++ " =") := by
    have spaced := fits_spaced ⟨chars_words name, phrase_name isName⟩
      fun argument member => ⟨chars_words argument, phrase_name (shape.names.2 argument member)⟩
    rw [List.map_id', ← functionHead_eq] at spaced
    exact ⟨by simp [spaced.1, assign], .beside spaced.2 (.sign (by decide) rfl)⟩
  have signature (known : Bool) :=
    fits_signed known isName (fun _ => shape.annotation result) (fits_above head fits)
  refine (signature _).of_eq ?_
  rw [Canonical.block, Canonical.functionSignature]
  cases (parameters.map Parameter.type ++ [returnType]).all Ty.isAny <;> simp [String.append_assoc]

theorem fits_constant {definition : ConstantDefinition} (sound : Sound.Block (.constant definition))
    (fits : Fits (bodyOf definition.body) (Canonical.body definition.body)) :
    Fits (block (.constant definition)) (Canonical.block (.constant definition)) := by
  obtain ⟨name, type, body⟩ := definition
  obtain ⟨isName, annotation⟩ := sound
  have head : Fits ((words name).beside assign) (name ++ " =") :=
    ⟨by simp [assign], .beside (phrase_name isName) (.sign (by decide) rfl)⟩
  have signature (known : Bool) := fits_signed known isName (fun _ => annotation) (fits_above head fits)
  refine (signature _).of_eq ?_
  rw [Canonical.block, Canonical.constantSignature]
  cases type.isAny <;> simp [String.append_assoc]

end Constructs

theorem fits_steps :
    Steps (fun e => e.Everywhere Sound.checks → Fits (expression e) (Canonical.expression e))
      (fun b => b.Everywhere Sound.checks → Fits (bodyOf b) (Canonical.body b))
      (fun d => d.Everywhere Sound.checks → BlockFits d) where
  value text sound := fits_value sound.here
  string text sound := ⟨chars_single _ _, .word rfl rfl sound.here⟩
  formatString text sound := ⟨chars_single _ _, .word rfl rfl sound.here⟩
  list items step sound := by
    rw [everywhere_list] at sound
    cases items with
    | nil => exact ⟨rfl, .emptyList⟩
    | cons item rest => exact fits_list (List.cons_ne_nil item rest) fun item member => step item member (sound.2 item member)
  range first last sound := fits_range sound.here
  record base fields step sound := by
    rw [everywhere_record] at sound
    exact fits_recordLiteral sound.1 fun field member => step field member (sound.2 field member)
  conditional predicate whenTrue whenFalse test yes no sound := by
    rw [everywhere_conditional] at sound
    exact fits_conditional (test sound.2.1) (yes sound.2.2.1) (no sound.2.2.2)
  caseOf predicate branches test step sound := by
    rw [everywhere_caseOf] at sound
    exact fits_caseOf sound.1 (test sound.2.1) fun branch member =>
      (sound.2.2 branch member).imp_right (step branch member)
  binary operator left right one two sound := by
    rw [everywhere_binary] at sound
    have left := fits_operand operator .left left (one sound.2.1)
    have right := fits_operand operator .right right (two sound.2.2)
    rw [expression, Canonical.expression]
    exact ⟨by simp [left.1, right.1], .beside left.2 (.beside (phrase_operator operator) right.2)⟩
  call name arguments step sound := by
    rw [everywhere_call] at sound
    rw [expression, Canonical.expression, arguments_eq, canonical_arguments]
    exact fits_spaced ⟨chars_words name, phrase_name sound.1.1⟩ fun argument member =>
      fits_argument argument (step argument member (sound.2 argument member))
  lambda parameters body step sound := by
    rw [everywhere_lambda] at sound
    exact fits_lambda sound.1.1 sound.1.2 (step sound.2)
  lambdaCall parameters body arguments _ _ sound := absurd sound.here id
  construct tag base fields step sound := by
    rw [everywhere_construct] at sound
    have literal := fits_recordLiteral sound.1.2 fun field member => step field member (sound.2 field member)
    rw [expression, Canonical.expression]
    exact ⟨by simp [literal.1], .beside (phrase_name sound.1.1.1) literal.2⟩
  reference path value step _ sound := by
    refine fits_reference sound.here fun name arguments same argument member => ?_
    subst same
    exact step name arguments rfl argument member ((everywhere_reference_call.mp sound).2 argument member)
  body locals result declarations step sound := by
    rw [everywhere_body] at sound
    exact fits_bodyOf sound.1 (fun block member => declarations block member (sound.2.1 block member)) (step sound.2.2)
  function name returnType parameters body step sound := .of_fits (fits_function sound.1 (step sound.2))
  constant name type body step sound := .of_fits (fits_constant sound.1 (step sound.2))
  imports modules sound := by
    obtain ⟨imported, rfl, soundImport⟩ := sound
    exact .of_fits ⟨chars_importLine imported, phrase_importLine soundImport⟩
  exports names sound :=
    .of_fits ⟨by simp [block, Canonical.block, chars_nameList, keyword, Keyword.spelling],
      .beside (phrase_keyword rfl) (phrase_nameList sound)⟩
  union declared sound := ⟨chars_unionType declared, fun _ => phrase_unionType sound⟩
  typeAlias declared sound := ⟨chars_typeAlias declared, fun _ => phrase_typeAlias sound⟩
  comment text _ := ⟨chars_single _ _, fun other => absurd rfl (other text).1⟩
  multilineComment text _ := ⟨chars_single _ _, fun other => absurd rfl (other text).2⟩

/-- **The document of a sound expression has its text, and is a phrase.** -/
theorem fits_expression {item : Expression} (sound : item.Everywhere Sound.checks) :
    Fits (expression item) (Canonical.expression item) :=
  fits_steps.expression item sound

/-- The document of a sound body has its text, and is a phrase. -/
theorem fits_body {body : Body} (sound : body.Everywhere Sound.checks) : Fits (bodyOf body) (Canonical.body body) :=
  fits_steps.bodies body sound

/-- The document of a sound declaration has its text. -/
theorem fits_block {declaration : Block} (sound : declaration.Everywhere Sound.checks) : BlockFits declaration :=
  fits_steps.block declaration sound

/-- **The document of sound declarations has their text.** -/
theorem chars_declarations {declarations : List Block}
    (sound : ∀ declaration ∈ declarations, declaration.Everywhere Sound.checks) :
    (Written.declarations declarations).chars = (Canonical.declarations declarations).toList := by
  have later : ∀ (rest : List Block) (previous : Block),
      (∀ declaration ∈ rest, declaration.Everywhere Sound.checks) →
        (following previous rest).chars = (Canonical.following previous rest).toList := by
    intro rest
    induction rest with
    | nil => exact fun _ _ => rfl
    | cons next more step =>
      intro previous sound
      rw [List.forall_mem_cons] at sound
      rw [following, Doc.chars_line, Doc.chars_append, (fits_block sound.1).1, step next sound.2, Canonical.following,
        Canonical.separator]
      cases Canonical.isImport previous && Canonical.isImport next <;> simp [lineChars]
  cases declarations with
  | nil => rfl
  | cons first rest =>
    rw [List.forall_mem_cons] at sound
    rw [Written.declarations, Doc.chars_append, (fits_block sound.1).1, later rest first sound.2,
      Canonical.declarations, String.toList_append]

end Written

end DerwLang
