/-
**Written declarations are read back.**

Imports, export lists and declared types hold no expressions, and they stand at no level. Their fields and tags are told
apart by commas and bars. Main facts:

* `read_import`, `read_exports`, `read_union`, `read_alias`: each of them is read back;
* `read_block`: so is every declaration;
* `declares_block`: every declaration goes on to its end.
-/

import DerwLang.Proofs.Reading.Body

namespace DerwLang

open Grammar Layout

namespace Written

open Doc

/-! ## Lists of names -/

/-- **Names between commas are read back.** -/
theorem read_names {names : List String} (some_ : names ≠ []) (sound : ∀ name ∈ names, Sound.Name name) {closing : Token}
    (closes : closing.kind = .closeBracket) (before : Nat) (position : Position) (rest : List Token) :
    namesUpToClose before ((joined commas (names.map words)).tokens position ++ closing :: rest) =
      .ok (names, ⟨closing.line, rest⟩) := by
  induction names generalizing before position with
  | nil => exact absurd rfl some_
  | cons name more step =>
    rw [List.forall_mem_cons] at sound
    cases more with
    | nil => simp [joined, tokens_words sound.1, namesUpToClose, closes, bind, Except.bind, pure, Except.pure]
    | cons next others =>
      have later := step (List.cons_ne_nil next others) sound.2
      rw [List.map_cons] at later
      rw [List.map_cons, List.map_cons, joined, commas, beside, comma, tokens_append, tokens_append, tokens_words sound.1]
      simp [single, Doc.tokens, namesUpToClose, later, bind, Except.bind, pure, Except.pure]

/-- **A list of names in brackets is read back.** -/
theorem read_nameList {names : List String} (sound : ∀ name ∈ names, Sound.Name name) (before : Nat) (position : Position) :
    ∃ line, Grammar.nameList ⟨before, (nameList names).tokens position⟩ = .ok (names, ⟨line, []⟩) := by
  rw [nameList]
  cases names with
  | nil => exact ⟨_, rfl⟩
  | cons name more =>
    have read {closing : Token} := @read_names (name :: more) (List.cons_ne_nil name more) sound closing
    simp only [List.isEmpty_cons, Bool.false_eq_true, if_false, Doc.round, single, Doc.tokens, tokens_append]
    exact ⟨_, by rw [Grammar.nameList, expect_of_kind rfl]; simp only [bind, Except.bind]; exact read rfl _ _ []⟩

/-! ## Imports and exports -/

/-- The word that names the imported module. -/
def NamesModule (token : Token) (name : String) (origin : ModuleOrigin) : Prop :=
  match origin with
  | .library => token.kind = .identifier ∧ token.body = name
  | .path => token.kind = .string ∧ unquote token.body = name

/-- The words that give the imported module another name, if there are any. -/
def GivesAlias (tokens : List Token) : Option String → Prop
  | none => tokens = []
  | some name => ∃ word token, tokens = [word, token] ∧ word.kind = .keyword .asWord ∧ token.kind = .identifier ∧
    token.body = name

/-- The words that list the names which are used, if there are any. -/
def ListsNames (tokens : List Token) (names : List String) : Prop :=
  tokens = [] ∧ names = [] ∨ ∃ word list, tokens = word :: list ∧ word.kind = .keyword .exposingWord ∧
    ∀ before, ∃ line, Grammar.nameList ⟨before, list⟩ = .ok (names, ⟨line, []⟩)

section Importing

attribute [local simp] importing Window.nextKind Window.line Window.expect Window.expectEnd bind Except.bind pure Except.pure

/-- **An import is read when its parts are there.** -/
theorem importing_ok (start : Token) {token : Token} {known used : List Token} {imported : ImportedModule}
    (named : NamesModule token imported.name imported.origin) (aliased : GivesAlias known imported.alias?)
    (listed : ListsNames used imported.exposing) (before : Nat) :
    importing start ⟨before, token :: (known ++ used)⟩ = .ok (.imports [imported]) := by
  obtain ⟨name, alias?, exposing, origin⟩ := imported
  obtain ⟨kind, body, line, column⟩ := token
  rcases listed with ⟨rfl, same⟩ | ⟨word, list, rfl, isExposing, reads⟩
  · obtain rfl : exposing = [] := same
    cases alias? with
    | none =>
      obtain rfl : known = [] := aliased
      cases origin with
      | library => obtain ⟨rfl, rfl⟩ := named; rfl
      | path => obtain ⟨rfl, rfl⟩ := named; rfl
    | some other =>
      obtain ⟨asWord, ⟨_, _, _, _⟩, rfl, isAs, rfl, rfl⟩ := aliased
      cases origin with
      | library => obtain ⟨rfl, rfl⟩ := named; simp [isAs]
      | path => obtain ⟨rfl, rfl⟩ := named; simp [isAs]
  · obtain ⟨last, read⟩ := reads word.line
    cases alias? with
    | none =>
      obtain rfl : known = [] := aliased
      cases origin with
      | library => obtain ⟨rfl, rfl⟩ := named; simp [isExposing, read]
      | path => obtain ⟨rfl, rfl⟩ := named; simp [isExposing, read]
    | some other =>
      obtain ⟨asWord, ⟨_, _, _, _⟩, rfl, isAs, rfl, rfl⟩ := aliased
      cases origin with
      | library => obtain ⟨rfl, rfl⟩ := named; simp [isAs, isExposing, read]
      | path => obtain ⟨rfl, rfl⟩ := named; simp [isAs, isExposing, read]

end Importing

theorem spaced_append (first second : List Doc) : spaced (first ++ second) = spaced first ++ spaced second := by
  induction first with
  | nil => rfl
  | cons doc rest step => simp [spaced, step, append_assoc]

/-- The name of an imported module. -/
def moduleName (imported : ImportedModule) : Doc :=
  match imported.origin with
  | .library => words imported.name
  | .path => quoted imported.name

/-- What gives an imported module another name. -/
def aliasWords : Option String → List Doc
  | none => []
  | some name => [keyword .asWord, words name]

/-- What lists the names that are used of an imported module. -/
def exposedWords (names : List String) : List Doc :=
  if names.isEmpty then [] else [keyword .exposingWord, nameList names]

theorem importLine_eq (imported : ImportedModule) :
    importLine imported = joined beside (keyword .importWord :: moduleName imported ::
      (aliasWords imported.alias? ++ exposedWords imported.exposing)) := by
  rw [importLine]
  cases imported.alias? <;> rfl

theorem tokens_moduleName {imported : ImportedModule} (sound : Sound.Imported imported) (place : Position) :
    ∃ token, (moduleName imported).tokens place = [token] ∧ NamesModule token imported.name imported.origin := by
  have isName := sound.1
  rw [moduleName]
  cases origin : imported.origin with
  | library =>
    rw [origin] at isName
    exact ⟨_, tokens_words isName place, rfl, rfl⟩
  | path => exact ⟨_, rfl, rfl, by simp [unquote, Text.quoted]⟩

theorem tokens_aliasWords {alias? : Option String} (sound : ∀ name ∈ alias?, Sound.Name name) (place : Position) :
    GivesAlias ((spaced (aliasWords alias?)).tokens place) alias? := by
  cases alias? with
  | none => rfl
  | some name =>
    let next := (place.step ' ').after Keyword.asWord.spelling.toList
    refine ⟨placed (.keyword .asWord) Keyword.asWord.spelling.toList (place.step ' '),
      placed .identifier name.toList (next.step ' '), ?_, rfl, rfl, String.ofList_toList⟩
    simp [aliasWords, spaced, keyword, single, Doc.tokens, words_of_isWord (sound name rfl), placed, next]

theorem tokens_exposedWords {names : List String} (sound : ∀ name ∈ names, Sound.Name name) (place : Position) :
    ListsNames ((spaced (exposedWords names)).tokens place) names := by
  cases names with
  | nil => exact .inl ⟨rfl, rfl⟩
  | cons name more =>
    let next := (place.step ' ').after Keyword.exposingWord.spelling.toList
    refine .inr ⟨placed (.keyword .exposingWord) Keyword.exposingWord.spelling.toList (place.step ' '),
      (nameList (name :: more)).tokens (next.step ' '), ?_, rfl, fun before => read_nameList sound before _⟩
    simp [exposedWords, spaced, keyword, single, Doc.tokens, placed, next]

theorem blockWith_import {token : Token} (isImport : token.kind = .keyword .importWord) (read : Window → Parsed Body)
    (before : Nat) (rest : List Token) :
    blockWith read ⟨before, token :: rest⟩ = importing token ⟨token.line, rest⟩ := by
  rw [blockWith]
  simp only [isImport]

/-- **An import is read back.** -/
theorem read_import {imported : ImportedModule} (sound : Sound.Imported imported) (before : Nat) (position : Position) :
    blockWith Grammar.body ⟨before, (importLine imported).tokens position⟩ = .ok (.imports [imported]) := by
  obtain ⟨token, same, named⟩ :=
    tokens_moduleName sound ((position.after Keyword.importWord.spelling.toList).step ' ')
  rw [importLine_eq, joined_beside, spaced, spaced_append, keyword, single, word_append, done_append, Doc.tokens, Doc.tokens,
    tokens_append, tokens_append, same, List.singleton_append, blockWith_import rfl]
  exact importing_ok _ named (tokens_aliasWords sound.2.1 _) (tokens_exposedWords sound.2.2 _) position.line

/-- **An export list is read back.** -/
theorem read_exports {names : List String} (sound : ∀ name ∈ names, Sound.Name name) (before : Nat) (position : Position) :
    blockWith Grammar.body ⟨before, (block (.exports names)).tokens position⟩ = .ok (.exports names) := by
  obtain ⟨line, read⟩ := read_nameList sound position.line
    ((position.after Keyword.exposingWord.spelling.toList).step ' ')
  have start : (block (.exports names)).tokens position =
      placed (.keyword .exposingWord) Keyword.exposingWord.spelling.toList position ::
        (nameList names).tokens ((position.after Keyword.exposingWord.spelling.toList).step ' ') := by
    rw [block, beside, keyword, single, word_append, done_append, Doc.tokens, Doc.tokens, placed]
  rw [start, blockWith]
  simp only [placed, exposing, read, bind, Except.bind]
  rfl

/-! ## Fields and tags -/

/-- **A typed field is read back.** -/
theorem reads_typedField {field : TypedField} (sound : Sound.TypedField field) (opening : Nat) :
    Reads (Grammar.typedField opening) (typedField field) fun _ => field := by
  intro level before position indented
  obtain ⟨colon, place, isColon, -, tokens⟩ := tokens_labelled sound.1 (type field.type) indented
  have phrase : Phrase false (type field.type) := phrase_type field.type sound.2
  obtain ⟨first, rest, start, -, -⟩ := tokens_of_starts phrase.solid.1 level place
  have read := read_type sound.2 place
  rw [← (flat_type field.type sound.2).shift level, start] at read
  rw [typedField, tokens, start, Grammar.typedField]
  simp [isColon, read, bind, Except.bind, pure, Except.pure]

theorem flat_typedField {field : TypedField} (sound : Sound.TypedField field) : (typedField field).Flat :=
  flat_beside (flat_label (flat_words sound.1)) (flat_type field.type sound.2)

/-- **Typed fields between brackets are read back**, with commas on one line or at the ends of lines. -/
theorem read_typedFields {glue : Doc → Doc → Doc} (separates : Separates glue .comma) {fields : List TypedField}
    (some_ : fields ≠ []) (sound : ∀ field ∈ fields, Sound.TypedField field)
    (phrase : Phrase true (joined glue (fields.map typedField))) {opening closing : Token} (opens : opening.kind = .openCurly)
    (closes : closing.kind = .closeCurly) {level : Nat} {position : Position} (indented : Indented level position)
    (before : Nat) (rest : List Token) :
    typedFields ⟨before, opening :: (((joined glue (fields.map typedField)).shift level).tokens position ++ closing :: rest)⟩ =
      .ok (fields, ⟨closing.line, rest⟩) := by
  have phrases : ∀ doc ∈ fields.map typedField, Phrase false doc := by
    rw [List.forall_mem_map]
    exact fun field member => phrase_typedField (sound field member)
  have cut := holds_joined separates (by simpa using some_) (fun doc member => (phrases doc member).firm)
    (fun doc member => carrying_comma (phrases doc member)) indented opening.line
  obtain ⟨first, others, start, -, -⟩ := tokens_of_starts phrase.solid.1 level position
  have found := ((phrase.shift level).balanced position).splitClose_closing .curly closes rest
  have read := mapM_holds cut fun field member => reads_typedField (sound field member) opening.line
  rw [List.map_id'] at read
  rw [typedFields, expect_of_kind opens]
  simp only [bind, Except.bind, found]
  rw [if_neg (by simp [start]), Window.splitOutside, read]
  rfl

/-- **A tag with its fields is read back.** -/
theorem takes_tag {declared : Tag} (sound : Sound.Tag declared) {level : Nat} {rest : List Token} (free : NoRecord rest) :
    Takes Grammar.tag level (tag declared) declared rest := by
  obtain ⟨name, fields⟩ := declared
  obtain ⟨isName, areFields⟩ := sound
  intro before position indented
  cases fields with
  | nil =>
    refine ⟨position.line, ?_⟩
    rw [show tag ⟨name, []⟩ = words name from rfl, shift_words level isName, tokens_words isName, List.singleton_append, Grammar.tag, expect_of_kind rfl]
    cases rest with
    | nil => rfl
    | cons next more =>
      have other : next.kind ≠ .openCurly := free next rfl
      simp [bind, Except.bind, pure, Except.pure, Window.nextKind, other]
  | cons field more =>
    have phrases : ∀ doc ∈ (field :: more).map typedField, Phrase true doc := by
      rw [List.forall_mem_map]
      exact fun field member => phrase_typedField (areFields field member)
    have phrase : Phrase true (joined commas ((field :: more).map typedField)) :=
      phrase_joined (fun one two => phrase_commas one two) (by simp) phrases
    have right : Indented level ((position.after name.toList).step ' ') :=
      (indented.flat (not_mem_of_isNameChar isName.isNameChar)).step (by decide)
    obtain ⟨opening, place, closing, opens, closes, inner, tokens⟩ :=
      tokens_curly (joined commas ((field :: more).map typedField)) right
    refine ⟨closing.line, ?_⟩
    have read := read_typedFields separates_commas (List.cons_ne_nil field more) areFields phrase opens closes inner
      position.line rest
    rw [show tag ⟨name, field :: more⟩ = (words name).beside (curly (joined commas ((field :: more).map typedField))) from rfl,
      beside, tokens_named isName, shift_space, Doc.tokens, tokens, List.cons_append, List.cons_append,
      List.append_assoc, List.singleton_append, Grammar.tag, expect_of_kind rfl]
    simp only [bind, Except.bind, Window.nextKind, List.head?_cons, Option.map_some, opens]
    rw [read]
    rfl

theorem tags_last {window : Window} {first : Tag} {line : Nat} (read : Grammar.tag window = .ok (first, ⟨line, []⟩)) :
    Grammar.tags window = .ok ([first], ⟨line, []⟩) := by
  rw [Grammar.tags]
  split
  · simp_all
  · rename_i ending found
    obtain ⟨rfl, rfl⟩ : first = _ ∧ _ = ending := by simpa [read] using found
    rfl

theorem tags_more {window : Window} {first : Tag} {line : Nat} {bar : Token} (isBar : bar.kind = .pipe) {rest : List Token}
    (read : Grammar.tag window = .ok (first, ⟨line, bar :: rest⟩)) {others : List Tag} {final : Window}
    (later : Grammar.tags ⟨bar.line, rest⟩ = .ok (others, final)) : Grammar.tags window = .ok (first :: others, final) := by
  rw [Grammar.tags]
  split
  · simp_all
  · rename_i ending found
    obtain ⟨rfl, rfl⟩ : first = _ ∧ _ = ending := by simpa [read] using found
    simp only [Window.nextKind, List.head?_cons, Option.map_some, isBar, bind, Except.bind, pure, Except.pure, Window.line,
      List.tail_cons, later]

theorem separates_bars : Separates bars .pipe := by
  intro first firm second level position indented
  let place := (position.after (first.shift level).chars).after (lineChars false (4 + 4 * level))
  refine ⟨placed .pipe ['|'] place, (place.step '|').step ' ', rfl,
    ((Indented.line false 4).step (by decide)).step (by decide), ?_⟩
  simp [bars, under, beside, single, Doc.tokens, iterate_flat, after_cons, placed, place]

/-- **Tags with bars between are read back.** -/
theorem read_tags {declared : List Tag} (some_ : declared ≠ []) (sound : ∀ tag ∈ declared, Sound.Tag tag) {level : Nat}
    {position : Position} (indented : Indented level position) (before : Nat) :
    ∃ line, Grammar.tags ⟨before, ((joined bars (declared.map tag)).shift level).tokens position⟩ =
      .ok (declared, ⟨line, []⟩) := by
  induction declared generalizing position before with
  | nil => exact absurd rfl some_
  | cons first rest step =>
    rw [List.forall_mem_cons] at sound
    cases rest with
    | nil =>
      have free : NoRecord [] := by simp [NoRecord]
      obtain ⟨line, read⟩ := takes_tag sound.1 free before position indented
      rw [List.append_nil] at read
      exact ⟨line, tags_last read⟩
    | cons second others =>
      have phrase : Phrase false (tag first) := phrase_tag sound.1
      have firm : (tag first).Firm := phrase.firm
      obtain ⟨bar, place, isBar, right, tokens⟩ :=
        separates_bars firm (joined bars ((second :: others).map tag)) indented
      obtain ⟨last, later⟩ := step (List.cons_ne_nil second others) sound.2 right bar.line
      have free : NoRecord (bar :: ((joined bars ((second :: others).map tag)).shift level).tokens place) := by
        simp [NoRecord, isBar]
      obtain ⟨line, read⟩ := takes_tag sound.1 free before position indented
      rw [List.map_cons, List.map_cons, joined, ← List.map_cons, tokens]
      exact ⟨last, tags_more isBar read later⟩

/-! ## Declared types -/

/-- The words of a declared type with the sign of definitions after it. -/
theorem tokens_declared {name : String} (isName : Sound.Name name) (parameters : List String) (level : Nat)
    (position : Position) :
    ∃ sign, sign.kind = .assign ∧
      (((type (.named name (parameters.map Ty.variable))).beside assign).shift level).tokens position =
        ⟨.identifier, name, position.line, position.column⟩ ::
          (((spaced (parameters.map words)).shift level).tokens (position.after name.toList) ++ [sign]) := by
  obtain ⟨sign, isAssign, tokens⟩ :=
    tokens_signed (type (.named name (parameters.map Ty.variable))) .assign ['='] level position
  refine ⟨sign, isAssign, ?_⟩
  rw [assign, tokens, type_declared, List.map_cons, joined_beside, tokens_named isName]
  rfl

theorem tokens_keyword (word : Keyword) (doc : Doc) (level : Nat) (position : Position) :
    (((keyword word).beside doc).shift level).tokens position =
      placed (.keyword word) word.spelling.toList position ::
        (doc.shift level).tokens ((position.after word.spelling.toList).step ' ') := by
  rw [shift_beside, shift_keyword]
  rfl

/-- The words of a union type. -/
theorem tokens_unionType {name : String} (isName : Sound.Name name) (parameters : List String) (tags : List Tag)
    (level : Nat) (position : Position) :
    ∃ (first sign : Token) (start place : Position), first.kind = .keyword .typeWord ∧ sign.kind = .assign ∧ Indented level place ∧
      ((unionType ⟨.named name (parameters.map Ty.variable), tags⟩).shift level).tokens position =
        first :: ⟨.identifier, name, start.line, start.column⟩ ::
          (((spaced (parameters.map words)).shift level).tokens (start.after name.toList) ++
            sign :: ((joined bars (tags.map tag)).shift level).tokens place) := by
  let start := (position.after Keyword.typeWord.spelling.toList).step ' '
  let declared := (type (.named name (parameters.map Ty.variable))).beside assign
  obtain ⟨sign, isAssign, tokens⟩ := tokens_declared isName parameters level start
  refine ⟨placed (.keyword .typeWord) Keyword.typeWord.spelling.toList position, sign, start,
    (start.after (declared.shift level).chars).after (lineChars false (4 + 4 * level)), rfl, isAssign, .line false 4, ?_⟩
  have apart : unionType ⟨.named name (parameters.map Ty.variable), tags⟩ =
      (keyword .typeWord).beside (declared.under false 4 (joined bars (tags.map tag))) := by
    simp [unionType, under, beside, append_assoc, declared]
  rw [apart, tokens_keyword, shift_under, under, tokens_append]
  change _ :: ((declared.shift level).tokens start ++ _) = _
  rw [tokens]
  simp [Doc.tokens, start]

/-- **A union type is read back.** -/
theorem read_union {declared : UnionType} (sound : Sound.Block (.union declared)) (read : Window → Parsed Body) :
    Reads (blockWith read) (unionType declared) fun _ => .union declared := by
  obtain ⟨type, tags⟩ := declared
  obtain ⟨⟨name, parameters, rfl, isName, areNames⟩, some_, areTags⟩ := sound
  intro level before position indented
  obtain ⟨first, sign, start, place, isType, isAssign, right, tokens⟩ :=
    tokens_unionType isName parameters tags level position
  obtain ⟨line, names⟩ := takes_names level areNames (show sign.kind ≠ .identifier by simp [isAssign])
    (((joined bars (tags.map tag)).shift level).tokens place) start.line (start.after name.toList)
  obtain ⟨last, reads⟩ := read_tags some_ areTags right sign.line
  rw [tokens, blockWith]
  simp only [isType, Window.nextKind, List.head?_cons, Option.map_some]
  rw [Grammar.unionType, expect_of_kind rfl]
  simp only [bind, Except.bind, Window.takeNames, names, expect_of_kind isAssign, reads]
  rfl

/-- The properties of an alias. -/
def properties (fields : List TypedField) : Doc :=
  if fields.isEmpty then .word .openCurly ['\x7b'] (.space (single .closeCurly ['\x7d']))
  else curlyLines (joined commaLines (fields.map typedField))

/-- The words of an alias. -/
theorem tokens_typeAlias {name : String} (isName : Sound.Name name) (parameters : List String) (fields : List TypedField)
    (level : Nat) (position : Position) :
    ∃ (first second sign : Token) (start place : Position), first.kind = .keyword .typeWord ∧
      second.kind = .keyword .aliasWord ∧ sign.kind = .assign ∧
      ((typeAlias ⟨.named name (parameters.map Ty.variable), fields⟩).shift level).tokens position =
        first :: second :: ⟨.identifier, name, start.line, start.column⟩ ::
          (((spaced (parameters.map words)).shift level).tokens (start.after name.toList) ++
            sign :: ((properties fields).shift level).tokens place) := by
  let next := (position.after Keyword.typeWord.spelling.toList).step ' '
  let start := (next.after Keyword.aliasWord.spelling.toList).step ' '
  let declared := (type (.named name (parameters.map Ty.variable))).beside assign
  obtain ⟨sign, isAssign, tokens⟩ := tokens_declared isName parameters level start
  refine ⟨placed (.keyword .typeWord) Keyword.typeWord.spelling.toList position,
    placed (.keyword .aliasWord) Keyword.aliasWord.spelling.toList next, sign, start,
    (start.after (declared.shift level).chars).step ' ', rfl, rfl, isAssign, ?_⟩
  have apart : typeAlias ⟨.named name (parameters.map Ty.variable), fields⟩ =
      (keyword .typeWord).beside ((keyword .aliasWord).beside (declared.beside (properties fields))) := by
    simp [typeAlias, beside, append_assoc, declared, properties]
  rw [apart, tokens_keyword, tokens_keyword, shift_beside level declared, beside, tokens_append]
  change _ :: _ :: ((declared.shift level).tokens start ++ _) = _
  rw [tokens]
  simp [Doc.tokens, start, next]

/-- **The properties of an alias are read back.** -/
theorem read_properties {fields : List TypedField} (sound : ∀ field ∈ fields, Sound.TypedField field) (level before : Nat)
    (position : Position) :
    ∃ line, typedFields ⟨before, ((properties fields).shift level).tokens position⟩ = .ok (fields, ⟨line, []⟩) := by
  cases fields with
  | nil => exact ⟨_, rfl⟩
  | cons field more =>
    let inside := joined commaLines ((field :: more).map typedField)
    let place := (position.step '\x7b').after (lineChars false (4 + 4 * level))
    let final := (place.after (inside.shift level).chars).after (lineChars false (0 + 4 * level))
    have tokens : ((properties (field :: more)).shift level).tokens position =
        placed .openCurly ['\x7b'] position ::
          ((inside.shift level).tokens place ++ [placed .closeCurly ['\x7d'] final]) := by
      simp [properties, curlyLines, single, Doc.tokens, iterate_flat, after_cons, placed, inside, place, final]
    refine ⟨final.line, ?_⟩
    rw [tokens]
    refine read_typedFields separates_commaLines (List.cons_ne_nil field more) sound ?_ rfl rfl (.line false 4) before []
    refine phrase_joined phrase_commaLines (by simp) ?_
    rw [List.forall_mem_map]
    exact fun field member => phrase_typedField (sound field member)

/-- **An alias is read back.** -/
theorem read_alias {declared : TypeAlias} (sound : Sound.Block (.alias declared)) (read : Window → Parsed Body) :
    Reads (blockWith read) (typeAlias declared) fun _ => .alias declared := by
  obtain ⟨type, fields⟩ := declared
  obtain ⟨⟨name, parameters, rfl, isName, areNames⟩, areFields⟩ := sound
  intro level before position _
  obtain ⟨first, second, sign, start, place, isType, isAlias, isAssign, tokens⟩ :=
    tokens_typeAlias isName parameters fields level position
  obtain ⟨line, names⟩ := takes_names level areNames (show sign.kind ≠ .identifier by simp [isAssign])
    (((properties fields).shift level).tokens place) start.line (start.after name.toList)
  obtain ⟨last, reads⟩ := read_properties areFields level sign.line place
  rw [tokens, blockWith]
  simp only [isType, isAlias, Window.nextKind, List.head?_cons, Option.map_some, List.tail_cons]
  rw [Grammar.typeAlias, expect_of_kind rfl]
  simp only [bind, Except.bind, Window.takeNames, names, expect_of_kind isAssign, reads]
  rfl

/-! ## All declarations -/

/-- The declaration is a comment. -/
def IsComment : Block → Prop
  | .comment _ | .multilineComment _ => True
  | _ => False

/-- **A declaration is read back.** -/
theorem read_block {declaration : Block} (sound : declaration.Everywhere Sound.checks) (other : ¬ IsComment declaration)
    (before : Nat) {position : Position} (indented : Indented 0 position) :
    Grammar.block ⟨before, (block declaration).tokens position⟩ = .ok (Settled.block 0 declaration) := by
  rw [← shift_zero (block declaration), Grammar.block]
  cases declaration with
  | imports modules =>
    obtain ⟨imported, rfl, isImported⟩ := sound
    rw [shift_zero]
    exact read_import isImported before position
  | exports names =>
    rw [shift_zero]
    exact read_exports sound before position
  | union declared => exact read_union sound Grammar.body 0 before position indented
  | «alias» declared => exact read_alias sound Grammar.body 0 before position indented
  | function definition =>
    obtain ⟨name, returnType, parameters, result⟩ := definition
    exact read_function sound.1 (reads_body sound.2) 0 before position indented
  | constant definition =>
    obtain ⟨name, type, result⟩ := definition
    exact read_constant sound.1 (reads_body sound.2) 0 before position indented
  | comment text => exact absurd trivial other
  | multilineComment text => exact absurd trivial other

/-! ## Where declarations end -/

/-- What hangs after a reserved word makes one declaration. -/
theorem declares_keyword (word : Keyword) {doc : Doc} (hanging : doc.Hanging) : ((keyword word).beside doc).Declares := by
  refine Hangs.declares ⟨?_, ?_⟩ fun level position first member => ?_
  · cases word <;> exact ⟨_, _, rfl, by decide⟩
  · simp [keyword, single, beside, Hanging, hanging]
  · rw [tokens_keyword] at member
    obtain rfl := Option.some.inj member
    exact ⟨rfl, by simp [placed]⟩

theorem hanging_spaced {docs : List Doc} (hanging : ∀ doc ∈ docs, doc.Hanging) : (spaced docs).Hanging := by
  induction docs with
  | nil => trivial
  | cons doc rest step =>
    rw [List.forall_mem_cons] at hanging
    exact hanging_append.mpr ⟨hanging.1, step hanging.2⟩

theorem flat_nameList {names : List String} (sound : ∀ name ∈ names, Sound.Name name) : (nameList names).Flat := by
  rw [nameList]
  split
  · exact ⟨by decide, by decide, trivial⟩
  · exact flat_round (flat_joined flat_commas (List.forall_mem_map.mpr fun name member => flat_words (sound name member)))

theorem declares_import {imported : ImportedModule} (sound : Sound.Imported imported) : (importLine imported).Declares := by
  have apart : importLine imported = (keyword .importWord).beside (moduleName imported ++
      spaced (aliasWords imported.alias? ++ exposedWords imported.exposing)) := by
    rw [importLine_eq, joined_beside]
    rfl
  rw [apart]
  obtain ⟨named, known, used⟩ := sound
  refine declares_keyword .importWord (hanging_append.mpr ⟨?_, hanging_spaced ?_⟩)
  · rw [moduleName]
    cases origin : imported.origin with
    | library =>
      rw [origin] at named
      exact (flat_words named).hanging
    | path => trivial
  · rw [List.forall_mem_append]
    constructor
    · cases alias? : imported.alias? with
      | none => simp [aliasWords]
      | some name =>
        simpa [aliasWords, keyword, single, Hanging] using (flat_words (known name alias?)).hanging
    · rw [exposedWords]
      split
      · simp
      · simpa [keyword, single, Hanging] using (flat_nameList used).hanging

theorem hanging_typedFields {glue : Doc → Doc → Doc}
    (glued : ∀ first second : Doc, first.Hanging → second.Hanging → (glue first second).Hanging) {fields : List TypedField}
    (sound : ∀ field ∈ fields, Sound.TypedField field) : (joined glue (fields.map typedField)).Hanging :=
  hanging_joined glued (List.forall_mem_map.mpr fun field member => (flat_typedField (sound field member)).hanging)

theorem flat_tag {declared : Tag} (sound : Sound.Tag declared) : (tag declared).Flat := by
  rw [tag]
  split
  · exact flat_words sound.1
  · exact flat_beside (flat_words sound.1) (flat_curly (flat_joined flat_commas
      (List.forall_mem_map.mpr fun field member => flat_typedField (sound.2 field member))))

theorem hanging_declared {t : Ty} (sound : Sound.Declared t) : (type t).Hanging := by
  obtain ⟨name, parameters, rfl, isName, areNames⟩ := sound
  rw [type_declared]
  refine hanging_joined (fun first second one two => ?_) (List.forall_mem_map.mpr fun word member => ?_)
  · simp [beside, Hanging, one, two]
  · exact (flat_words (List.forall_mem_cons.mpr ⟨isName, areNames⟩ word member)).hanging

theorem declares_union {declared : UnionType} (sound : Sound.Block (.union declared)) : (unionType declared).Declares := by
  obtain ⟨declares, -, areTags⟩ := sound
  have apart : unionType declared =
      (keyword .typeWord).beside (((type declared.type).beside assign).under false 4 (joined bars (declared.tags.map tag))) := by
    simp [unionType, under, beside, append_assoc]
  rw [apart]
  refine declares_keyword .typeWord ?_
  have tags : (joined bars (declared.tags.map tag)).Hanging :=
    hanging_joined (fun first second one two => by simp [bars, under, beside, single, Hanging, one, two])
      (List.forall_mem_map.mpr fun declared member => (flat_tag (areTags declared member)).hanging)
  simp [under, beside, assign, single, Hanging, hanging_declared declares, tags]

/-- The closing bracket of an alias starts no declaration. -/
theorem declares_alias {declared : TypeAlias} (sound : Sound.Block (.alias declared)) : (typeAlias declared).Declares := by
  obtain ⟨t, fields⟩ := declared
  obtain ⟨declares, areFields⟩ := sound
  cases fields with
  | nil =>
    exact declares_keyword .typeWord (by simp [keyword, beside, assign, single, Hanging, hanging_declared declares])
  | cons field more =>
    let inside := joined commaLines ((field :: more).map typedField)
    have hanging : inside.Hanging :=
      hanging_typedFields (fun first second one two => by simp [commaLines, under, comma, single, Hanging, one, two]) areFields
    let before := (keyword .typeWord).beside ((keyword .aliasWord).beside ((type t).beside (assign.beside
      (.word .openCurly ['\x7b'] (.line false 4 inside)))))
    have hangs : before.Hangs := by
      refine ⟨⟨_, _, rfl, by decide⟩, ?_⟩
      simp [before, keyword, beside, assign, single, Hanging, hanging_declared declares, hanging]
    have apart : typeAlias ⟨t, field :: more⟩ = before ++ .line false 0 (single .closeCurly ['\x7d']) := by
      simp [typeAlias, before, curlyLines, beside, append_assoc, inside]
    intro level position _
    obtain ⟨first, rest, tokens, line, column, quiet⟩ := hangs.quiet level position
    have isType : first.kind = .keyword .typeWord := by
      rw [tokens_keyword] at tokens
      rw [← (List.cons.inj tokens).1]
      rfl
    rw [apart, shift_append, tokens_append, tokens]
    refine ⟨first, _, rfl, line, column, by simp [opensBlock, isType], by simp [isType], ?_⟩
    refine continues_append quiet (fun last => ?_) trivial
    rw [foldl_push]
    simp [startsBlock, Opened.ofHead, isType, Token.Kind.isComment]

/-- **A declaration goes on to its end.** -/
theorem declares_block {declaration : Block} (sound : declaration.Everywhere Sound.checks) : (block declaration).Declares := by
  cases declaration with
  | imports modules =>
    obtain ⟨imported, rfl, isImported⟩ := sound
    exact declares_import isImported
  | exports names => exact declares_keyword .exposingWord (flat_nameList sound).hanging
  | union declared => exact declares_union sound
  | «alias» declared => exact declares_alias sound
  | function definition => exact declares_definition sound rfl
  | constant definition => exact declares_definition sound rfl
  | comment text => exact fun level position _ => ⟨_, [], rfl, rfl, rfl, rfl, by simp, trivial⟩
  | multilineComment text => exact fun level position _ => ⟨_, [], rfl, rfl, rfl, rfl, by simp, trivial⟩

end Written

end DerwLang
