/-
**Written atoms are read back.**

An atom is read off the front of a window, and what follows it is left (`Takes`). The readers of what is nested are those of
all smaller expressions and bodies (`Ready`), and they are given. Main facts:

* `takes_atom`: an expression that stands without brackets is taken whole;
* `takes_round`: so is any expression in brackets;
* `takes_arguments`: arguments are taken one by one, where a tag takes the record after it for its own.
-/

import DerwLang.Proofs.Layout.Name
import DerwLang.Proofs.Layout.Settled
import DerwLang.Proofs.Reading.Type

namespace DerwLang

open Grammar Layout

/-! ## Readers of what is nested -/

/-- The readers read expressions and bodies up to the size. -/
structure Ready (nested : Nested) (size : Nat) : Prop where
  expression : ∀ {item : Expression}, item.Everywhere Sound.checks → (Written.expression item).size ≤ size →
    Reads nested.expression (Written.expression item) fun level => Settled.expression level item
  body : ∀ {inner : Body}, inner.Everywhere Sound.checks → (Written.bodyOf inner).size ≤ size →
    Reads nested.body (Written.bodyOf inner) fun level => Settled.body level inner

/-- The reader takes the document off the front of a window as the value, and leaves the rest. -/
def Takes {α : Type} (read : Window → Parsed (α × Window)) (level : Nat) (doc : Doc) (value : α) (rest : List Token) :
    Prop :=
  ∀ (before : Nat) (position : Position), Indented level position →
    ∃ line, read ⟨before, (doc.shift level).tokens position ++ rest⟩ = .ok (value, ⟨line, rest⟩)

namespace Written

open Doc

variable {nested : Nested} {size level : Nat} {rest : List Token}

/-! ## Records -/

/-- A word in its place. -/
def placed (kind : Token.Kind) (own : List Char) (position : Position) : Token :=
  ⟨kind, String.ofList own, position.line, position.column⟩

/-- The words of curly brackets with something in them. -/
theorem tokens_curly (inside : Doc) {position : Position} (indented : Indented level position) :
    ∃ opening place closing, opening.kind = .openCurly ∧ closing.kind = .closeCurly ∧ Indented level place ∧
      ((curly inside).shift level).tokens position = opening :: ((inside.shift level).tokens place ++ [closing]) := by
  let place := (position.step '\x7b').step ' '
  refine ⟨placed .openCurly ['\x7b'] position, place,
    placed .closeCurly ['\x7d'] ((place.after (inside.shift level).chars).step ' '), rfl, rfl,
    (indented.step (by decide)).step (by decide), ?_⟩
  simp [curly, single, Doc.tokens, after_cons, placed, place]

/-- The words of round brackets. -/
theorem tokens_round (inside : Doc) {position : Position} (indented : Indented level position) :
    ∃ opening place closing, opening.kind = .openBracket ∧ closing.kind = .closeBracket ∧ Indented level place ∧
      ((Doc.round inside).shift level).tokens position = opening :: ((inside.shift level).tokens place ++ [closing]) := by
  let place := position.step '('
  refine ⟨placed .openBracket ['('] position, place, placed .closeBracket [')'] (place.after (inside.shift level).chars),
    rfl, rfl, indented.step (by decide), ?_⟩
  simp [Doc.round, single, Doc.tokens, after_cons, placed, place]

/-- The words of a name with a colon and of what follows. -/
theorem tokens_labelled {name : String} (isName : Sound.Name name) (value : Doc) {position : Position}
    (indented : Indented level position) :
    ∃ colon place, colon.kind = .colon ∧ Indented level place ∧
      (((label (words name)).beside value).shift level).tokens position =
        ⟨.identifier, name, position.line, position.column⟩ :: colon :: (value.shift level).tokens place := by
  let place := position.after name.toList
  refine ⟨placed .colon [':'] place, (place.step ':').step ' ', rfl,
    ((indented.flat (not_mem_of_isNameChar isName.isNameChar)).step (by decide)).step (by decide), ?_⟩
  rw [shift_beside, shift_label, shift_words level isName, beside, label, tokens_append, tokens_append,
    tokens_words isName]
  simp [single, Doc.tokens, after_cons, after_append, placed, place]

/-- **The fields of a record are read back.** -/
theorem reads_recordField (ready : Ready nested size) {field : Field} (isName : Sound.Name field.name)
    (sound : field.value.Everywhere Sound.checks) (fits : (expression field.value).size ≤ size) (opening : Nat) :
    Reads (recordField nested opening) ((label (words field.name)).beside (expression field.value)) fun level =>
      ⟨field.name, Settled.expression level field.value⟩ := by
  intro level before position indented
  obtain ⟨colon, place, isColon, right, tokens⟩ := tokens_labelled isName (expression field.value) indented
  rw [tokens, recordField]
  simp only [beq_self_eq_true, isColon, Bool.and_self, if_true]
  rw [ready.expression sound fits level colon.line place right]
  rfl

/-- What holds of the fields of a record that is read by readers of the size. -/
def FieldsFit (size : Nat) (fields : List Field) : Prop :=
  ∀ field ∈ fields, Sound.Name field.name ∧ field.value.Everywhere Sound.checks ∧ (expression field.value).size ≤ size

/-- **Fields with their base are read back.** -/
theorem read_recordFields (ready : Ready nested size) {base : Option String} {fields : List Field}
    (isName : ∀ name ∈ base, Sound.Name name) (fit : FieldsFit size fields) (opening : Nat) {windows : List Window}
    (holds : List.Forall₂ (Holds level) windows (base.toList.map words ++ recordFields fields)) :
    Grammar.recordFields nested opening windows = .ok (Settled.recordLiteral level ⟨base, fields⟩) := by
  have read : ∀ {windows}, List.Forall₂ (Holds level) windows (recordFields fields) →
      windows.mapM (recordField nested opening) = .ok (Settled.recordFields level fields) := by
    intro windows holds
    rw [recordFields_eq] at holds
    rw [Settled.recordFields_eq]
    exact mapM_holds holds fun field member =>
      reads_recordField ready (fit field member).1 (fit field member).2.1 (fit field member).2.2 opening
  cases base with
  | some name =>
    cases holds with
    | cons one others =>
      obtain ⟨position, before, -, rfl⟩ := one
      have lone : loneName? ⟨before, ((words name).shift level).tokens position⟩ = some name := by
        rw [shift_words level (isName name rfl), tokens_words (isName name rfl)]
        rfl
      rw [Grammar.recordFields, lone]
      simp only
      rw [read others]
      rfl
  | none =>
    cases windows with
    | nil =>
      have whole := read holds
      rw [List.mapM_nil] at whole
      have none_ : Settled.recordFields level fields = [] := (Except.ok.inj whole).symm
      rw [Grammar.recordFields, Settled.recordLiteral, none_]
    | cons window more =>
      have several : loneName? window = none := by
        cases fields with
        | nil => cases holds
        | cons field rest =>
          cases field with
          | mk name value =>
            cases holds with
            | cons one others =>
              obtain ⟨position, before, right, rfl⟩ := one
              obtain ⟨colon, place, -, -, tokens⟩ :=
                tokens_labelled (fit ⟨name, value⟩ List.mem_cons_self).1 (expression value) right
              rw [tokens]
              rfl
      rw [Grammar.recordFields, several]
      simp only
      rw [read holds]
      rfl

/-- The entries of a record are phrases. -/
theorem phrase_entries {base : Option String} {fields : List Field} (isName : ∀ name ∈ base, Sound.Name name)
    (fit : FieldsFit size fields) : ∀ doc ∈ base.toList.map words ++ recordFields fields, Phrase false doc := by
  rw [recordFields_eq, List.forall_mem_append, List.forall_mem_map, List.forall_mem_map]
  refine ⟨fun name member => phrase_name (isName name (by simpa using member)), fun field member => ?_⟩
  refine .beside ?_ (fits_expression (fit field member).2.1).2
  rw [words_of_isWord (fit field member).1]
  exact .label (fit field member).1

/-- **A record literal is read back.** -/
theorem read_recordLiteral (ready : Ready nested size) {base : Option String} {fields : List Field}
    (isName : ∀ name ∈ base, Sound.Name name) (fit : FieldsFit size fields) {position : Position}
    (indented : Indented level position) (rest : List Token) :
    ∃ opening tokens line, ((recordLiteral (base.toList.map words ++ recordFields fields)).shift level).tokens position =
        opening :: tokens ∧ opening.kind = .openCurly ∧
      Grammar.recordLiteral nested opening (tokens ++ rest) =
        .ok (Settled.recordLiteral level ⟨base, fields⟩, ⟨line, rest⟩) := by
  have phrases := phrase_entries isName fit
  have read := @read_recordFields nested size level ready base fields isName fit
  rw [recordLiteral]
  generalize docs : base.toList.map words ++ recordFields fields = entries at phrases read ⊢
  cases entries with
  | nil =>
    have same := read 0 .nil
    let place := (position.step '\x7b').step ' '
    refine ⟨placed .openCurly ['\x7b'] position, [placed .closeCurly ['\x7d'] place], place.line, ?_, rfl, ?_⟩
    · simp [single, Doc.tokens, after_cons, placed, place]
    · rw [Grammar.recordFields, Except.ok.injEq] at same
      rw [← same]
      rfl
  | cons doc more =>
    have whole := phrase_joined (fun one two => phrase_commas one two) (List.cons_ne_nil doc more)
      (fun entry member => (phrases entry member).weaken)
    obtain ⟨opening, place, closing, opens, closes, right, tokens⟩ := tokens_curly (joined commas (doc :: more)) indented
    have cut := fun before => holds_joined separates_commas (List.cons_ne_nil doc more)
      (fun entry member => (phrases entry member).firm) (fun entry member => carrying_comma (phrases entry member)) right before
    refine ⟨opening, _, closing.line, tokens, opens, ?_⟩
    obtain ⟨first, others, start, -, -⟩ := tokens_of_starts whole.solid.1 level place
    rw [List.append_assoc, List.singleton_append, Grammar.recordLiteral,
      ((whole.shift level).balanced place).splitClose_closing .curly closes]
    simp only [start, List.isEmpty_cons, Bool.false_eq_true, if_false, Window.splitOutside]
    rw [← start, read opening.line (cut opening.line)]
    rfl

/-! ## Lists -/

/-- The interior of a list literal is found between its brackets. -/
theorem unquote_listChars (inside : Doc) : unquote (String.ofList (listChars inside)) = String.ofList inside.chars := by
  simp [unquote, listChars]

/-- The grammar sees the words of a text that is read anew. -/
theorem significant_tokenizeAt {doc : Doc} (lexes : doc.Lexes []) (line column : Nat) :
    Token.significant (tokenizeAt (String.ofList doc.chars) line column) =
      Token.significant (doc.tokens ⟨line, column⟩) := by
  have read := visible_chars lexes ⟨line, column⟩
  have nothing : visible ((Position.mk line column).after doc.chars) [] = [] := rfl
  have hidden : ∀ tokens : List Token,
      Token.significant (tokens.filter fun token => token.kind != .whitespace) = Token.significant tokens := by
    intro tokens
    rw [Token.significant, Token.significant, List.filter_filter]
    refine List.filter_congr fun token _ => ?_
    cases kind : token.kind <;> simp [Token.isTrivia, Token.Kind.isTrivia, Token.Kind.isComment, kind]
  rw [List.append_nil, nothing, List.append_nil] at read
  rw [← read, visible, hidden, tokenizeAt, String.toList_ofList]

/-- What holds of expressions that are read by readers of the size. -/
def ItemsFit (size : Nat) (items : List Expression) : Prop :=
  ∀ item ∈ items, item.Everywhere Sound.checks ∧ (expression item).size ≤ size

/-- A list literal in its place. -/
def literalAt (inside : Doc) (position : Position) : Token :=
  placed .literal (listChars inside) position

/-- The words within a list literal. -/
theorem significant_literalAt {inside : Doc} (lexes : inside.Lexes []) (position : Position) :
    Token.significant (tokenizeAt (unquote (literalAt inside position).body) (literalAt inside position).line
        ((literalAt inside position).column + 1)) = Token.significant (inside.tokens (position.step '[')) := by
  rw [literalAt, placed, unquote_listChars, significant_tokenizeAt lexes]
  rfl

theorem phrase_items {items : List Expression} (fit : ItemsFit size items) :
    ∀ doc ∈ expressions items, Phrase false doc := by
  rw [expressions_eq, List.forall_mem_map]
  exact fun item member => (fits_expression (fit item member).1).2

theorem reads_listItem (ready : Ready nested size) {item : Expression} (sound : item.Everywhere Sound.checks)
    (fits : (expression item).size ≤ size) (line : Nat) :
    Reads (listItem nested line) (expression item) fun level => Settled.expression level item := by
  intro level before position indented
  obtain ⟨first, rest, tokens, -, -⟩ := tokens_of_starts (fits_expression sound).2.solid.1 level position
  rw [listItem, if_neg (by simp [tokens])]
  exact ready.expression sound fits level before position indented

/-- **The items of a list are read back.** -/
theorem read_list (ready : Ready nested size) {items : List Expression} (some_ : items ≠ []) (fit : ItemsFit size items)
    {position : Position} (indented : Indented level position) :
    listLiteral nested (literalAt ((space (joined commas (expressions items) ++ space done)).shift level) position) =
      .ok (.list (Settled.expressions level items)) := by
  have phrases := phrase_items fit
  have filled : expressions items ≠ [] := by simpa [expressions_eq] using some_
  have whole : Phrase true (joined commas (expressions items)) :=
    phrase_joined (fun one two => phrase_commas one two) filled fun doc member => (phrases doc member).weaken
  let place := (position.step '[').step ' '
  have right : Indented level place := (indented.step (by decide)).step (by decide)
  have balanced := (whole.shift level).balanced place
  have tokens : Token.significant
      (((space (joined commas (expressions items) ++ space done)).shift level).tokens (position.step '[')) =
        ((joined commas (expressions items)).shift level).tokens place := by
    rw [← balanced.significant]
    simp [Doc.tokens, place]
  have literal : Phrase false (list (space (joined commas (expressions items) ++ space done)) done) := .list whole
  have lexes := (literal.shift level).lexes (show isGap [] = true from rfl)
  obtain ⟨first, rest, start, -, -⟩ := tokens_of_starts whole.solid.1 level place
  have cut := fun before => holds_joined separates_commas filled
    (fun doc member => (phrases doc member).firm) (fun doc member => carrying_comma (phrases doc member)) right before
  rw [listLiteral]
  simp only [significant_literalAt lexes.1, tokens]
  rw [if_neg (by simp [start]), Token.splitKind_eq_none balanced.no_range]
  simp only [Window.splitOutside]
  rw [expressions_eq] at cut ⊢
  rw [mapM_holds (cut _) fun item member => reads_listItem ready (fit item member).1 (fit item member).2 _,
    ← Settled.expressions_eq]
  rfl

theorem read_noItems (position : Position) : listLiteral nested (literalAt (space done) position) = .ok (.list []) := by
  have tokens := @significant_literalAt (space done) trivial position
  have nothing : Token.significant ((space done).tokens (position.step '[')) = [] := rfl
  rw [nothing] at tokens
  rw [listLiteral]
  simp only [tokens]
  rfl

/-- The bound of a range is a single word. -/
theorem isWord_bound {text : String} (sound : Sound.Name text ∨ IsWord .literal text.toList) :
    ∃ kind, (kind = .identifier ∨ kind = .literal) ∧ IsWord kind text.toList := by
  rcases sound with name | literal
  · exact ⟨_, .inl rfl, name⟩
  · exact ⟨_, .inr rfl, literal⟩

theorem read_rangeBound {kind : Token.Kind} (bound : kind = .identifier ∨ kind = .literal) (own : List Char)
    (position : Position) : rangeBound [placed kind own position] = .ok (String.ofList own) := by
  rcases bound with rfl | rfl <;> rfl

/-- **The bounds of a range are read back.** -/
theorem read_range {first last : String} (sound : Sound.Expression (.range first last)) (position : Position) :
    listLiteral nested (literalAt ((space (words first ++ word (.operator .range) ['.', '.'] (words last) ++
        space done)).shift level) position) =
      .ok (.range (Settled.moved level first) (Settled.moved level last)) := by
  obtain ⟨kind, kindBound, one⟩ := isWord_bound sound.1
  obtain ⟨kindLast, lastBound, two⟩ := isWord_bound sound.2
  have isOpen : ∀ {kind : Token.Kind}, kind = .identifier ∨ kind = .literal → isOpenKind kind = true := by
    rintro kind (rfl | rfl) <;> rfl
  let own := deepen^[level] first.toList
  let other := deepen^[level] last.toList
  have inside : (space (words first ++ word (.operator .range) ['.', '.'] (words last) ++ space done)).shift level =
      space (word kind own (word (.operator .range) ['.', '.'] (word kindLast other (space done)))) := by
    simp [words_of_isWord one, words_of_isWord two, single, own, other]
  have literal : Phrase false (list (space (word kind own (word (.operator .range) ['.', '.']
      (word kindLast other (space done))))) done) :=
    .range (isOpen kindBound) (isOpen lastBound) (one.iterate (isOpen kindBound) level)
      (two.iterate (isOpen lastBound) level)
  let place := (position.step '[').step ' '
  let dots := place.after own
  have tokens : Token.significant ((space (word kind own (word (.operator .range) ['.', '.']
      (word kindLast other (space done))))).tokens (position.step '[')) =
        [placed kind own place] ++ placed (.operator .range) ['.', '.'] dots ::
          [placed kindLast other (dots.after ['.', '.'])] := by
    rcases kindBound with rfl | rfl <;> rcases lastBound with rfl | rfl <;> rfl
  have before : ∀ token ∈ [placed kind own place], token.kind ≠ .operator .range := by
    rw [List.forall_mem_singleton]
    rcases kindBound with rfl | rfl <;> simp [placed]
  rw [inside, listLiteral]
  simp only [significant_literalAt (literal.lexes (show isGap [] = true from rfl)).1, tokens]
  rw [if_neg (by simp), Token.splitKind_append before rfl]
  simp only [read_rangeBound kindBound, read_rangeBound lastBound]
  rfl

/-! ## Atoms -/

/-- No record literal follows. -/
def NoRecord (rest : List Token) : Prop :=
  ∀ token ∈ rest.head?, token.kind ≠ .openCurly

/-- A name on its own is an atom. -/
theorem atom_identifier {name : String} (free : Settled.isTag name = true → NoRecord rest) (before line column : Nat) :
    atom nested ⟨before, ⟨.identifier, name, line, column⟩ :: rest⟩ = .ok (reference name [], ⟨line, rest⟩) := by
  rw [atom]
  cases rest with
  | nil => rfl
  | cons next more =>
    have alone : (Text.isCapitalised name && !Text.hasChar name '.' && next.kind == .openCurly) = false := by
      cases tag : Settled.isTag name with
      | false =>
        rw [Settled.isTag] at tag
        rw [tag, Bool.false_and]
      | true =>
        have other := free tag next rfl
        simp [other]
    simp [alone]

/-- **A value is read back.** -/
theorem takes_value {text : String} (sound : Sound.Expression (.value text))
    (free : Settled.isTag text = true → NoRecord rest) : Takes (atom nested) level (words text) (.value text) rest := by
  intro before position _
  rcases sound with ⟨name, plain⟩ | ⟨isWord, notList⟩ | negative
  · refine ⟨position.line, ?_⟩
    rw [shift_words level name, tokens_words name, List.singleton_append, atom_identifier free, reference_value plain]
  · refine ⟨position.line, ?_⟩
    have bare : isListLiteral ⟨.literal, text, position.line, position.column⟩ = false := by
      cases chars : text.toList with
      | nil => simp [isListLiteral, Text.startsWith, chars]
      | cons c more =>
        rw [chars] at notList
        have differs : '[' ≠ c := fun same => notList (by rw [same]; rfl)
        simp [isListLiteral, Text.startsWith, chars, List.isPrefixOf, differs]
    have same : (words text).shift level = words text := by
      rw [words_of_isWord isWord, shift_single, iterate_flat (not_mem_of_isNameChar (isWord.isNameChar_of_literal notList))]
    rw [same, tokens_words isWord, List.singleton_append, atom]
    simp [bare]
  · obtain ⟨c, more, same, digit, isWord, chars⟩ := words_negative negative
    have flat : '\n' ∉ c :: more := not_mem_of_isNameChar (isWord.isNameChar_of_digit digit)
    refine ⟨position.line, ?_⟩
    rw [same, shift_word, shift_word, iterate_flat (by decide), iterate_flat flat, shift_done]
    have number : negatedNumber? (placed (.operator .minus) ['-'] position) (placed .literal (c :: more) (position.after ['-'])) =
        some text := by
      have text_ : "-" ++ String.ofList (c :: more) = text := by
        rw [← String.toList_inj, String.toList_append, chars]
        simp
      rw [negatedNumber?, if_pos (by simp [placed, after_cons, Position.step, digit])]
      exact congrArg some text_
    show atom nested ⟨before, placed (.operator .minus) ['-'] position ::
      placed .literal (c :: more) (position.after ['-']) :: rest⟩ = _
    rw [atom]
    simp only [placed] at number ⊢
    rw [number]
    simp [after_cons, Position.step]

/-- A list literal is an atom. -/
theorem atom_literalAt {inside : Doc} {position : Position} {value : Expression}
    (read : listLiteral nested (literalAt inside position) = .ok value) (before : Nat) :
    atom nested ⟨before, literalAt inside position :: rest⟩ = .ok (value, ⟨position.line, rest⟩) := by
  have isList : isListLiteral (literalAt inside position) = true := by
    simp [isListLiteral, literalAt, placed, listChars, Text.startsWith]
  have kind : (literalAt inside position).kind = .literal := rfl
  rw [atom]
  simp only [kind]
  rw [if_pos isList, read]
  rfl

/-! ### Sizes of what is nested -/

theorem size_commas {docs : List Doc} {doc : Doc} (member : doc ∈ docs) : doc.size ≤ (joined commas docs).size :=
  le_joined (fun first second => by simp [commas, comma, beside, single, Doc.size]) member

theorem itemsFit {items : List Expression} (sound : ∀ item ∈ items, item.Everywhere Sound.checks)
    (fits : (joined commas (expressions items)).size ≤ size) : ItemsFit size items := by
  intro item member
  refine ⟨sound item member, Nat.le_trans (size_commas ?_) fits⟩
  rw [expressions_eq]
  exact List.mem_map_of_mem member

theorem fieldsFit {base : Option String} {fields : List Field} (isName : ∀ field ∈ fields, Sound.Name field.name)
    (sound : ∀ field ∈ fields, field.value.Everywhere Sound.checks)
    (fits : (recordLiteral (base.toList.map words ++ recordFields fields)).size ≤ size + 1) : FieldsFit size fields := by
  intro field member
  refine ⟨isName field member, sound field member, ?_⟩
  have entry : (label (words field.name)).beside (expression field.value) ∈ base.toList.map words ++ recordFields fields := by
    rw [recordFields_eq]
    exact List.mem_append_right _ (List.mem_map_of_mem member)
  have within := size_commas entry
  have own : (expression field.value).size ≤ ((label (words field.name)).beside (expression field.value)).size := by
    simp [beside, Doc.size]
  have outer : (recordLiteral (base.toList.map words ++ recordFields fields)).size =
      (joined commas (base.toList.map words ++ recordFields fields)).size + 2 := by
    rw [recordLiteral, if_neg (by rw [List.isEmpty_iff]; exact List.ne_nil_of_mem entry)]
    simp [curly, single, Doc.size]
  omega

/-- **An expression that stands without brackets is read back.** -/
theorem takes_atom (ready : Ready nested size) {item : Expression} (sound : item.Everywhere Sound.checks)
    (atomic : Canonical.isAtomic item = true) (fits : (expression item).size ≤ size + 1)
    (free : ∀ tag, item = .value tag → Settled.isTag tag = true → NoRecord rest) :
    Takes (atom nested) level (expression item) (Settled.expression level item) rest := by
  cases item with
  | value text => exact takes_value sound.here (free text rfl)
  | string text => exact fun _ _ _ => ⟨_, rfl⟩
  | formatString text => exact fun _ _ _ => ⟨_, rfl⟩
  | list items =>
    rw [everywhere_list] at sound
    intro before position indented
    cases items with
    | nil =>
      exact ⟨position.line, atom_literalAt (read_noItems position) before⟩
    | cons first more =>
      have fit : ItemsFit size (first :: more) := by
        refine itemsFit sound.2 ?_
        simp only [expression, bracketed, Doc.size, size_append] at fits
        omega
      exact ⟨position.line, atom_literalAt (read_list ready (List.cons_ne_nil first more) fit indented) before⟩
  | range first last =>
    intro before position _
    exact ⟨position.line, atom_literalAt (read_range sound.here position) before⟩
  | record literal =>
    obtain ⟨base, fields⟩ := literal
    rw [everywhere_record] at sound
    intro before position indented
    rw [expression] at fits ⊢
    obtain ⟨opening, tokens, line, same, opens, read⟩ :=
      read_recordLiteral ready sound.1.1 (fieldsFit sound.1.2 sound.2 fits) indented rest
    refine ⟨line, ?_⟩
    rw [same, List.cons_append, atom]
    simp only [opens]
    rw [read]
    rfl
  | construct tag literal =>
    obtain ⟨base, fields⟩ := literal
    rw [everywhere_construct] at sound
    obtain ⟨⟨⟨isName, capital, plain⟩, areNames⟩, soundFields⟩ := sound
    intro before position indented
    rw [expression, beside, size_append, words_of_isWord isName] at fits
    simp only [single, Doc.size] at fits
    have right : Indented level ((position.after tag.toList).step ' ') :=
      (indented.flat (not_mem_of_isNameChar isName.isNameChar)).step (by decide)
    have fit : FieldsFit size fields := @fieldsFit size base fields areNames.2 soundFields (by omega)
    obtain ⟨opening, tokens, line, same, opens, read⟩ := read_recordLiteral ready areNames.1 fit right rest
    refine ⟨line, ?_⟩
    rw [expression, shift_beside, shift_words level isName, beside, tokens_append, tokens_words isName, chars_words,
      Doc.tokens, same, List.singleton_append, List.cons_append, List.cons_append, atom]
    simp only [capital, plain, opens, Bool.not_false, Bool.and_self, beq_self_eq_true, if_true]
    rw [read]
    rfl
  | reference path value =>
    cases value with
    | value name =>
      intro before position _
      have isName : Sound.Name (whole path name) := sound.here.1
      have noTag : Settled.isTag (whole path name) = true → NoRecord rest := by
        simp [Settled.isTag, hasChar_whole]
      refine ⟨position.line, ?_⟩
      rw [expression, shift_words level isName, tokens_words isName, List.singleton_append, atom_identifier noTag,
        reference_whole sound.here]
      rfl
    | _ => simp [Canonical.isAtomic, Canonical.isValue] at atomic
  | call name arguments =>
    have some_ : arguments ≠ [] := sound.here.2.2
    simp [Canonical.isAtomic, some_] at atomic
  | conditional _ _ _ | caseOf _ _ | binary _ _ _ | lambda _ | lambdaCall _ _ => simp [Canonical.isAtomic] at atomic

/-- **An expression in brackets is read back.** -/
theorem takes_round (ready : Ready nested size) {item : Expression} (sound : item.Everywhere Sound.checks)
    (fits : (expression item).size ≤ size) :
    Takes (atom nested) level (Doc.round (expression item)) (Settled.expression level item) rest := by
  intro before position indented
  have phrase : Phrase false (expression item) := (fits_expression sound).2
  obtain ⟨opening, place, closing, opens, closes, right, tokens⟩ := tokens_round (expression item) indented
  refine ⟨closing.line, ?_⟩
  rw [tokens, List.cons_append, List.append_assoc, List.singleton_append, atom]
  simp only [opens]
  rw [((phrase.shift level).balanced place).splitClose_closing .round closes]
  simp only
  rw [ready.expression sound fits level opening.line place right]
  rfl

/-! ## Arguments -/

/-- No argument follows. -/
def Stops (rest : List Token) : Prop :=
  ∀ token ∈ rest.head?, startsAtom token.kind = false

theorem Stops.noRecord (stops : Stops rest) : NoRecord rest := by
  intro token member same
  have stop := stops token member
  rw [same] at stop
  simp [startsAtom] at stop

theorem arguments_stop (stops : Stops rest) (before : Nat) :
    Grammar.arguments nested ⟨before, rest⟩ = .ok ([], ⟨before, rest⟩) := by
  have no : ¬ ((Window.mk before rest).nextKind.any startsAtom = true) := by
    cases rest with
    | nil => simp [Window.nextKind]
    | cons token more => simpa [Window.nextKind] using stops token rfl
  rw [Grammar.arguments, if_neg no]

theorem arguments_cons {window ending final : Window} {first : Expression} {others : List Expression}
    (starts : window.nextKind.any startsAtom = true) (one : atom nested window = .ok (first, ending))
    (more : Grammar.arguments nested ending = .ok (others, final)) :
    Grammar.arguments nested window = .ok (first :: others, final) := by
  rw [Grammar.arguments, if_pos starts]
  split
  · rename_i error same
    rw [one] at same
    simp at same
  · rename_i other next same
    rw [one, Except.ok.injEq, Prod.mk.injEq] at same
    rw [← same.1, ← same.2, more]
    rfl

theorem kinds_recordLiteral (entries : List Doc) : ∃ kinds, (recordLiteral entries).kinds = .openCurly :: kinds := by
  rw [recordLiteral]
  split
  · exact ⟨_, rfl⟩
  · exact ⟨_, rfl⟩

/-- What an argument starts with. -/
theorem kinds_argument {item : Expression} (sound : item.Everywhere Sound.checks) :
    ∃ kind kinds, (argument item (expression item)).kinds = kind :: kinds ∧ startsAtom kind = true ∧
      (kind = .openCurly → ∃ literal, item = .record literal) := by
  rw [argument]
  split
  · rename_i atomic
    cases item with
    | value text =>
      rw [expression]
      rcases sound.here with ⟨name, -⟩ | ⟨isWord, -⟩ | ⟨c, more, chars, -⟩
      · exact ⟨.identifier, [], kinds_words name, rfl, by simp⟩
      · exact ⟨.literal, [], kinds_words isWord, rfl, by simp⟩
      · simp [Canonical.isAtomic, Text.startsWith, chars] at atomic
    | string text => exact ⟨.string, [], rfl, rfl, by simp⟩
    | formatString text => exact ⟨.formatString, [], rfl, rfl, by simp⟩
    | list items => cases items <;> exact ⟨.literal, [], rfl, rfl, by simp⟩
    | range first last => exact ⟨.literal, [], rfl, rfl, by simp⟩
    | record literal =>
      obtain ⟨base, fields⟩ := literal
      obtain ⟨kinds, same⟩ := kinds_recordLiteral (base.toList.map words ++ recordFields fields)
      exact ⟨.openCurly, kinds, same, rfl, fun _ => ⟨_, rfl⟩⟩
    | construct tag literal =>
      obtain ⟨base, fields⟩ := literal
      have isName : Sound.Name tag := sound.here.1.1
      refine ⟨.identifier, (recordLiteral (base.toList.map words ++ recordFields fields)).kinds, ?_, rfl, by simp⟩
      rw [expression, beside, kinds_append, kinds_words isName]
      rfl
    | reference path value =>
      cases value with
      | value name => exact ⟨.identifier, [], kinds_words sound.here.1, rfl, by simp⟩
      | _ => simp [Canonical.isAtomic, Canonical.isValue] at atomic
    | call name arguments =>
      have some_ : arguments ≠ [] := sound.here.2.2
      simp [Canonical.isAtomic, some_] at atomic
    | conditional _ _ _ | caseOf _ _ | binary _ _ _ | lambda _ | lambdaCall _ _ => simp [Canonical.isAtomic] at atomic
  · exact ⟨.openBracket, _, rfl, rfl, by simp⟩

/-- **An argument is read back.** -/
theorem takes_argument (ready : Ready nested size) {item : Expression} (sound : item.Everywhere Sound.checks)
    (fits : (argument item (expression item)).size ≤ size)
    (free : ∀ tag, item = .value tag → Settled.isTag tag = true → NoRecord rest) :
    Takes (atom nested) level (argument item (expression item)) (Settled.expression level item) rest := by
  rw [argument] at fits ⊢
  split at fits
  · rename_i atomic
    rw [if_pos atomic]
    exact takes_atom ready sound atomic (Nat.le_succ_of_le fits) free
  · rename_i compound
    rw [if_neg compound]
    refine takes_round ready sound ?_
    simp only [Doc.round, single, Doc.size, size_append] at fits
    omega

/-- No digit is a capital. -/
theorem not_digit_of_capital {c : Char} (capital : Text.isUppercase c = true) : c.isDigit = false := by
  by_contra digit
  rw [Bool.not_eq_false] at digit
  simp only [Char.isDigit, Bool.and_eq_true, decide_eq_true_eq] at digit
  have small : c.toNat < 128 := Nat.lt_of_le_of_lt digit.2 (by decide)
  rw [Text.isUppercase, if_pos small] at capital
  have upper : 'A' ≤ c ∧ c ≤ 'Z' := of_decide_eq_true capital
  exact absurd (Nat.le_trans upper.1 digit.2) (by decide)

/-- No literal starts with a capital. -/
theorem not_literal_of_capital {c : Char} {own : List Char} (capital : Text.isUppercase c = true) :
    ¬ IsWord .literal (c :: own) := by
  intro isWord
  obtain ⟨_, _, same, kind, -⟩ := isWord_iff.mp isWord
  simp only [List.cons.injEq] at same
  obtain ⟨rfl, rfl⟩ := same
  have isOpen : isOpenKind (Lexeme.classify c own).1 = true := by rw [kind]; rfl
  have notDigit := not_digit_of_capital capital
  rcases Lexeme.start_of_isOpenKind isOpen with digit | starts | rfl | rfl | rfl
  · simp [notDigit] at digit
  · rw [Lexeme.classify_name (Lexeme.not_blank_of_isOpenKind isOpen) notDigit starts, Lexeme.wordKind] at kind
    split at kind
    · simp at kind
    · split at kind
      · rename_i truth
        simp only [Bool.or_eq_true, beq_iff_eq] at truth
        rcases truth with same | same
        · obtain rfl : c = 't' := (List.cons.inj ((String.toList_ofList).symm.trans (congrArg String.toList same))).1
          exact absurd capital (by decide)
        · obtain rfl : c = 'f' := (List.cons.inj ((String.toList_ofList).symm.trans (congrArg String.toList same))).1
          exact absurd capital (by decide)
      · simp at kind
  · exact absurd capital (by decide)
  · exact absurd capital (by decide)
  · exact absurd capital (by decide)

/-- A value that is a tag is a capitalised name without a dot. -/
theorem name_of_isTag {tag : String} (sound : Sound.Expression (.value tag)) (isTag : Settled.isTag tag = true) :
    Sound.Name tag ∧ Text.isCapitalised tag = true ∧ Text.hasChar tag '.' = false := by
  simp only [Settled.isTag, Bool.and_eq_true, Bool.not_eq_true'] at isTag
  refine ⟨?_, isTag⟩
  have capital := isTag.1
  rw [Text.isCapitalised] at capital
  rcases sound with ⟨name, -⟩ | ⟨isWord, -⟩ | ⟨c, more, chars, -⟩
  · exact name
  · cases chars : tag.toList with
    | nil => simp [chars] at capital
    | cons c more =>
      rw [chars] at capital isWord
      exact absurd isWord (not_literal_of_capital capital)
  · rw [chars] at capital
    exact absurd (show Text.isUppercase '-' = true from capital) (by decide)

/-! ### Tags before records -/

theorem value_of_settled {item : Expression} {tag : String} (same : Settled.expression level item = .value tag) :
    item = .value tag := by
  cases item with
  | value text => exact same
  | binary operator left right =>
    have atomic := Settled.isValue_join operator (Settled.expression level left) (Settled.expression level right)
    rw [Settled.expression] at same
    simp [same, Canonical.isValue] at atomic
  | _ => simp [Settled.expression] at same

theorem record_of_settled {item : Expression} {literal : RecordLiteral}
    (same : Settled.expression level item = .record literal) : ∃ written, item = .record written := by
  cases item with
  | record written => exact ⟨written, rfl⟩
  | binary operator left right =>
    have atomic := Settled.isAtomic_join operator (Settled.expression level left) (Settled.expression level right)
    rw [Settled.expression] at same
    simp [same, Canonical.isAtomic] at atomic
  | _ => simp [Settled.expression] at same

/-- An argument that is no tag before a record stands by itself. -/
theorem merge_cons {item : Expression} {rest : List Expression}
    (other : ∀ tag literal after, item = .value tag → rest = .record literal :: after → Settled.isTag tag = false) :
    Settled.merge (item :: rest) = item :: Settled.merge rest := by
  rw [Settled.merge.eq_def]
  split
  · rename_i same
    simp at same
  · rename_i tag literal after same
    obtain ⟨rfl, rfl⟩ := List.cons.inj same
    rw [if_neg (by simp [other tag literal after rfl rfl])]
    simp [Settled.merge]
  · rename_i same
    obtain ⟨rfl, rfl⟩ := List.cons.inj same
    rfl

theorem kinds_spaced (docs : List Doc) : (spaced docs).kinds = docs.flatMap kinds := by
  induction docs with
  | nil => rfl
  | cons doc rest step => rw [spaced, kinds, kinds_append, step, List.flatMap_cons]

/-- The kind of the first word of a document comes next. -/
theorem nextKind_tokens {doc : Doc} {kind : Token.Kind} {kinds : List Token.Kind} (same : doc.kinds = kind :: kinds)
    (before : Nat) (position : Position) (more : List Token) :
    (Window.mk before ((doc.shift level).tokens position ++ more)).nextKind = some kind := by
  have whole := map_kind_tokens position (doc.shift level)
  rw [kinds_shift, same] at whole
  cases tokens : (doc.shift level).tokens position with
  | nil => simp [tokens] at whole
  | cons first others =>
    rw [tokens, List.map_cons] at whole
    exact congrArg some (List.cons.inj whole).1

/-- After an argument that is no tag before a record, no record follows that would belong to it. -/
theorem noRecord_spaced {items : List Expression} (sound : ∀ item ∈ items, item.Everywhere Sound.checks)
    (noFirst : ∀ literal more, items ≠ .record literal :: more) (stops : Stops rest) (position : Position) :
    NoRecord (((spaced (arguments items)).shift level).tokens position ++ rest) := by
  cases items with
  | nil => exact stops.noRecord
  | cons item more =>
    obtain ⟨kind, kinds, same, -, onlyRecord⟩ := kinds_argument (sound item List.mem_cons_self)
    have first : (spaced (arguments (item :: more))).kinds = kind :: (kinds ++ (spaced (arguments more)).kinds) := by
      rw [arguments, spaced, Doc.kinds, kinds_append, same, List.cons_append]
    have next := @nextKind_tokens level _ _ _ first 0 position rest
    intro token member curly
    rw [Window.nextKind, Option.mem_def.mp member, Option.map_some, Option.some.injEq, curly] at next
    obtain ⟨literal, rfl⟩ := onlyRecord next.symm
    exact noFirst literal more rfl

/-- One more argument in front, which is no tag before a record. -/
theorem takes_cons (ready : Ready nested size) {item : Expression} {more : List Expression}
    (sound : ∀ argument ∈ item :: more, argument.Everywhere Sound.checks)
    (fits : (argument item (expression item)).size ≤ size)
    (other : ∀ tag literal after, item = .value tag → more = .record literal :: after → Settled.isTag tag = false)
    (stops : Stops rest)
    (later : Takes (Grammar.arguments nested) level (spaced (arguments more))
      (Settled.merge (Settled.expressions level more)) rest) :
    Takes (Grammar.arguments nested) level (spaced (arguments (item :: more)))
      (Settled.merge (Settled.expressions level (item :: more))) rest := by
  rw [List.forall_mem_cons] at sound
  intro before position indented
  have firm : (argument item (expression item)).Firm := (fits_argument item (fits_expression sound.1)).2.firm
  let place := position.step ' '
  let next := place.after ((argument item (expression item)).shift level).chars
  have right : Indented level place := indented.step (by decide)
  have tokens : ((spaced (arguments (item :: more))).shift level).tokens position =
      ((argument item (expression item)).shift level).tokens place ++ ((spaced (arguments more)).shift level).tokens next := by
    simp [arguments, spaced, Doc.tokens, place, next]
  have free : ∀ tag, item = .value tag → Settled.isTag tag = true →
      NoRecord (((spaced (arguments more)).shift level).tokens next ++ rest) := by
    intro tag same isTag
    refine noRecord_spaced sound.2 (fun literal after record => ?_) stops next
    simp [other tag literal after same record] at isTag
  obtain ⟨line, first⟩ := takes_argument ready sound.1 fits free before place right
  obtain ⟨last, others⟩ := later line next (right.doc firm)
  obtain ⟨kind, kinds, same, starts, -⟩ := kinds_argument sound.1
  have settled : Settled.merge (Settled.expressions level (item :: more)) =
      Settled.expression level item :: Settled.merge (Settled.expressions level more) := by
    rw [Settled.expressions]
    refine merge_cons fun tag literal after isValue isRecord => ?_
    cases more with
    | nil => simp [Settled.expressions] at isRecord
    | cons following others =>
      rw [Settled.expressions] at isRecord
      obtain ⟨written, rfl⟩ := record_of_settled (List.cons.inj isRecord).1
      exact other tag written _ (value_of_settled isValue) rfl
  refine ⟨last, ?_⟩
  rw [tokens, List.append_assoc, settled]
  refine arguments_cons ?_ first others
  rw [nextKind_tokens same]
  exact starts

/-- A tag with the record after it is one argument. -/
theorem spaced_tag {tag : String} {literal : RecordLiteral} {more : List Expression}
    (sound : Sound.Expression (.value tag)) (isTag : Settled.isTag tag = true) :
    spaced (arguments (.value tag :: .record literal :: more)) = spaced (arguments (.construct tag literal :: more)) := by
  have bare := Settled.not_minus_of_isTag isTag
  obtain ⟨base, fields⟩ := literal
  simp [arguments, argument, bare, Canonical.isAtomic, expression, spaced, beside,
    words_of_isWord (name_of_isTag sound isTag).1, single]

/-- **Arguments are read back**, where a tag takes the record after it. -/
theorem takes_arguments (ready : Ready nested size) {items : List Expression}
    (sound : ∀ item ∈ items, item.Everywhere Sound.checks) (fits : (spaced (arguments items)).size ≤ size)
    (stops : Stops rest) :
    Takes (Grammar.arguments nested) level (spaced (arguments items))
      (Settled.merge (Settled.expressions level items)) rest := by
  have parts : ∀ {item : Expression} {more : List Expression}, (spaced (arguments (item :: more))).size ≤ size →
      (argument item (expression item)).size ≤ size ∧ (spaced (arguments more)).size ≤ size := by
    intro item more whole
    rw [arguments, spaced, Doc.size, size_append] at whole
    omega
  induction items using Settled.merge.induct with
  | case1 => exact fun before position _ => ⟨before, arguments_stop stops before⟩
  | case2 tag literal more isTag step =>
    have name := name_of_isTag (sound _ List.mem_cons_self).here isTag
    have soundRecord := sound _ (List.mem_cons_of_mem _ List.mem_cons_self)
    have soundMore : ∀ item ∈ more, item.Everywhere Sound.checks := fun item member =>
      sound item (List.mem_cons_of_mem _ (List.mem_cons_of_mem _ member))
    have soundTag : (Expression.construct tag literal).Everywhere Sound.checks := by
      obtain ⟨base, fields⟩ := literal
      rw [everywhere_record] at soundRecord
      exact everywhere_construct.mpr ⟨⟨name, soundRecord.1⟩, soundRecord.2⟩
    have settled : Settled.merge (Settled.expressions level (.value tag :: .record literal :: more)) =
        Settled.merge (Settled.expressions level (.construct tag literal :: more)) := by
      simp [Settled.expressions, Settled.expression, Settled.merge, isTag]
    rw [spaced_tag (sound _ List.mem_cons_self).here isTag] at fits ⊢
    rw [settled]
    refine takes_cons ready (List.forall_mem_cons.mpr ⟨soundTag, soundMore⟩) (parts fits).1 ?_ stops
      (step soundMore (parts fits).2)
    simp
  | case3 tag literal more notTag step =>
    rw [List.forall_mem_cons] at sound
    have soundMore : ∀ item ∈ more, item.Everywhere Sound.checks := fun item member =>
      sound.2 item (List.mem_cons_of_mem _ member)
    have fitsRecord := (parts fits).2
    refine takes_cons ready (List.forall_mem_cons.mpr sound) (parts fits).1 ?_ stops
      (takes_cons ready sound.2 (parts fitsRecord).1 (by simp) stops (step soundMore (parts fitsRecord).2))
    rintro other _ _ same -
    rw [← Expression.value.inj same]
    exact Bool.eq_false_iff.mpr notTag
  | case4 item more other step =>
    rw [List.forall_mem_cons] at sound
    refine takes_cons ready (List.forall_mem_cons.mpr sound) (parts fits).1 ?_ stops (step sound.2 (parts fits).2)
    exact fun tag literal after isValue isRecord => (other tag literal after isValue isRecord).elim

end Written

end DerwLang
