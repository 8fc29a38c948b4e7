/-
**The Elm text of a list pattern is read back.**

The parts of a list pattern are the operands of its text (`consPattern?_pattern`), if its names are names in Elm as well
(`IsNamed`): none is reserved or starts with an underscore, and no tag is named with its module. The text is that of a
phrase, whose words are those that reading sees.
-/

import DerwLang.Proofs.ConsPattern.Operand
import DerwLang.Proofs.Reading.Atom
import DerwLang.Proofs.Reading.Pattern

namespace DerwLang.Elm

open Grammar Layout Doc

/-! ## Parts as operands -/

/-- The names in the part are names in Elm, and it is no template. -/
def IsNamed : ListPart → Prop
  | .emptyList | .string _ => True
  | .formatString _ => False
  | .name name => name = "_" ∨ isVariable name = true
  | .tag pattern => isTag pattern.tag = true ∧ ∀ field ∈ pattern.fields, isVariable field = true

instance : DecidablePred IsNamed
  | .emptyList | .string _ => isTrue trivial
  | .formatString _ => isFalse id
  | .name name => inferInstanceAs (Decidable (name = "_" ∨ isVariable name = true))
  | .tag pattern =>
    inferInstanceAs (Decidable (isTag pattern.tag = true ∧ ∀ field ∈ pattern.fields, isVariable field = true))

/-- What the part is read as. -/
def operandOf : ListPart → Operand
  | .emptyList => .emptyList
  | .string text | .formatString text => .text text
  | .name name => if name = "_" then .anything else .name name
  | .tag pattern => .tag pattern.tag pattern.fields

/-- A tag in round brackets with what it is applied to. -/
def application (tag : String) (argument : Doc) : Doc :=
  Doc.round ((words tag).beside argument)

/-- The words of a part. -/
def partWords (bareTags : BareTags) : ListPart → Doc
  | .emptyList => .list .done .done
  | .string text | .formatString text => Written.quoted text
  | .name name => words name
  | .tag pattern =>
    if !pattern.fields.isEmpty then application pattern.tag (curly (joined commas (pattern.fields.map words)))
    else if bareTags.contains pattern.tag then words pattern.tag
    else application pattern.tag (words "_")

/-! ## Texts -/

theorem name_underscore : Sound.Name "_" := by decide

/-- There is no space in a name. -/
theorem no_space_of_name {name : String} (isName : Sound.Name name) : Text.hasChar name ' ' = false := by
  rw [Text.hasChar, List.contains_eq_mem, decide_eq_false_iff_not]
  intro member
  have named := List.all_eq_true.mp (IsWord.isNameChar isName) ' ' member
  exact absurd (not_blank_of_isNameChar named) (by decide)

theorem chars_application (tag : String) (argument : Doc) :
    (application tag argument).chars = '(' :: (tag.toList ++ ' ' :: (argument.chars ++ [')'])) := by
  rw [application, chars_round, chars_beside, chars_words, List.append_assoc, List.cons_append]

/-- The words of a part have its text. -/
theorem chars_partWords (bareTags : BareTags) {part : ListPart} (sound : Sound.ListPart part) :
    (partWords bareTags part).chars = (listPart bareTags part).toList := by
  cases part with
  | emptyList => simp [partWords, listPart]
  | string text => exact chars_single _ _
  | formatString text => exact chars_single _ _
  | name name => exact chars_words name
  | tag pattern =>
    obtain ⟨tag, fields⟩ := pattern
    simp only [partWords, listPart, tagPattern]
    split
    · have spaced : Text.hasChar (tag ++ " " ++ Text.braced (Text.commaSeparated fields)) ' ' = true := by
        simp [Text.hasChar]
      rw [if_pos spaced, chars_application, chars_curly, chars_joined_commas, Written.map_chars_words]
      simp [Text.parenthesised, Text.braced, Text.commaSeparated]
    · split
      · rw [no_space_of_name sound.1]
        exact chars_words tag
      · have spaced : Text.hasChar (tag ++ " _") ' ' = true := by simp [Text.hasChar]
        rw [if_pos spaced, chars_application, chars_words]
        simp [Text.parenthesised]

theorem phrase_application {commas : Bool} {tag : String} (isName : Sound.Name tag) {argument : Doc}
    (phrase : Phrase true argument) : Phrase commas (application tag argument) :=
  .round (.beside (phrase_name isName) phrase)

/-- The words of a part are a phrase. -/
theorem phrase_partWords {commas : Bool} (bareTags : BareTags) {part : ListPart} (sound : Sound.ListPart part)
    (named : IsNamed part) : Phrase commas (partWords bareTags part) := by
  cases part with
  | emptyList => exact .noList
  | string text => exact .word rfl rfl sound
  | formatString text => exact named.elim
  | name name => exact phrase_name sound.1
  | tag pattern =>
    rw [partWords]
    split
    · rename_i some_
      exact phrase_application sound.1 (.curly (Written.phrase_names (by simpa using some_) sound.2.2))
    · split
      · exact phrase_name sound.1
      · exact phrase_application sound.1 (phrase_name name_underscore)

/-! ## Reading a part -/

/-- The names of fields are read back. -/
theorem fields?_joined {fields : List String} (some_ : fields ≠ []) (sound : ∀ field ∈ fields, Sound.Name field)
    (areVariables : ∀ field ∈ fields, isVariable field = true) {closing : Token} (closes : closing.kind = .closeCurly)
    (position : Position) :
    fields? ((joined commas (fields.map words)).tokens position ++ [closing]) = some fields := by
  induction fields generalizing position with
  | nil => exact absurd rfl some_
  | cons field more step =>
    rw [List.forall_mem_cons] at sound areVariables
    cases more with
    | nil => simp [joined, Written.tokens_words sound.1, fields?, areVariables.1, closes]
    | cons next others =>
      have later := step (List.cons_ne_nil next others) sound.2 areVariables.2
      rw [List.map_cons] at later
      rw [List.map_cons, List.map_cons, joined, commas, beside, comma, tokens_append, tokens_append,
        Written.tokens_words sound.1]
      simp [single, Doc.tokens, fields?, areVariables.1, later]

/-- An application is read back, if its argument is. -/
theorem operand?_application {tag : String} (isName : Sound.Name tag) (tagged : isTag tag = true) {argument : Doc}
    {fields : List String} (read : ∀ position, argument? (argument.tokens position) = some fields)
    (position : Position) : operand? ((application tag argument).tokens position) = some (.tag tag fields) := by
  have inside : application? (((words tag).beside argument ++ single .closeBracket [')']).tokens
      (position.after ['('])) = some (.tag tag fields) := by
    rw [beside, tokens_append, tokens_append, Written.tokens_words isName]
    simp [single, Doc.tokens, application?, tagged, read]
  rw [application, Doc.round, Doc.tokens, operand?, inside]
  rfl

/-- **A part is read back.** -/
theorem operand?_partWords (bareTags : BareTags) {part : ListPart} (sound : Sound.ListPart part) (named : IsNamed part)
    (position : Position) : operand? ((partWords bareTags part).tokens position) = some (operandOf part) := by
  cases part with
  | emptyList =>
    rw [partWords, Doc.tokens, Doc.tokens]
    simp [operand?, Written.isEmptyList_brackets, operandOf]
  | string text => simp [partWords, Written.quoted, single, Doc.tokens, operand?, unquote, Text.quoted, operandOf]
  | formatString text => exact named.elim
  | name name =>
    rw [partWords, Written.tokens_words sound.1]
    have small : isTag name = false := by simp [isTag, sound.2.1]
    rcases named with rfl | areVariables
    · rfl
    · by_cases anything : name = "_"
      · subst anything
        rfl
      · simp [operand?, word?, anything, small, areVariables, operandOf]
  | tag pattern =>
    obtain ⟨tag, fields⟩ := pattern
    obtain ⟨tagged, areVariables⟩ := named
    rw [partWords]
    split
    · rename_i some_
      refine operand?_application sound.1 tagged (fun position => ?_) position
      rw [curly, Doc.tokens, argument?]
      simp only [beq_self_eq_true, if_true, Doc.tokens, tokens_append, single]
      exact fields?_joined (by simpa using some_) sound.2.2 areVariables rfl _
    · rename_i none_
      obtain rfl : fields = [] := by simpa using none_
      split
      · rw [Written.tokens_words sound.1]
        have other : tag ≠ "_" := by
          rintro rfl
          exact absurd sound.2.1 (by decide)
        simp [operand?, word?, other, tagged, operandOf]
      · refine operand?_application sound.1 tagged (fun position => ?_) position
        rw [Written.tokens_words name_underscore]
        simp [argument?]

theorem kinds_application {tag : String} (isName : Sound.Name tag) (argument : Doc) :
    (application tag argument).kinds = .openBracket :: .identifier :: (argument.kinds ++ [.closeBracket]) := by
  simp [application, Doc.round, beside, single, kinds, kinds_words isName]

/-- No separator occurs in a part. -/
theorem no_cons_partWords (bareTags : BareTags) {part : ListPart} (sound : Sound.ListPart part) (position : Position) :
    ∀ token ∈ (partWords bareTags part).tokens position, (token.kind == .operator .cons) = false := by
  intro token among
  have occurs := kind_mem among
  rw [beq_eq_false_iff_ne]
  intro same
  rw [same] at occurs
  cases part with
  | emptyList => simp [partWords, kinds] at occurs
  | string text => simp [partWords, Written.quoted, single, kinds] at occurs
  | formatString text => simp [partWords, Written.quoted, single, kinds] at occurs
  | name name => simp [partWords, kinds_words sound.1] at occurs
  | tag pattern =>
    rw [partWords] at occurs
    split at occurs
    · have fields : Token.Kind.operator .cons ∉ (joined commas (pattern.fields.map words)).kinds := fun member =>
        absurd (Written.kinds_fieldNames sound.2.2 _ member) (by decide)
      simp [kinds_application sound.1, curly, single, kinds, fields] at occurs
    · split at occurs
      · simp [kinds_words sound.1] at occurs
      · simp [kinds_application sound.1, kinds_words name_underscore] at occurs

/-! ## Reading a pattern -/

/-- Parts with `::` between are read one by one. -/
theorem mapM_splitOnP_joined (bareTags : BareTags) {parts : List ListPart} (some_ : parts ≠ [])
    (sound : ∀ part ∈ parts, Sound.ListPart part) (named : ∀ part ∈ parts, IsNamed part) (position : Position) :
    (((joined conses (parts.map (partWords bareTags))).tokens position).splitOnP
      (·.kind == .operator .cons)).mapM operand? = some (parts.map operandOf) := by
  induction parts generalizing position with
  | nil => exact absurd rfl some_
  | cons part rest step =>
    rw [List.forall_mem_cons] at sound named
    have alone := no_cons_partWords bareTags sound.1 position
    have own := operand?_partWords bareTags sound.1 named.1 position
    cases rest with
    | nil =>
      rw [List.map_singleton, joined, List.splitOnP_eq_singleton alone]
      simp [own]
    | cons next more =>
      have later := step (List.cons_ne_nil next more) sound.2 named.2
      rw [List.map_cons, List.map_cons, joined, conses, beside, tokens_append, Doc.tokens, beside, single, word_append,
        Doc.tokens, done_append, Doc.tokens, List.splitOnP_append_cons_of_forall_mem alone _ rfl, List.mapM_cons, own]
      rw [List.map_cons] at later
      simp [later]

theorem chars_joined_partWords (bareTags : BareTags) {parts : List ListPart}
    (sound : ∀ part ∈ parts, Sound.ListPart part) :
    String.ofList (joined conses (parts.map (partWords bareTags))).chars = pattern bareTags (.list parts) := by
  have texts : parts.map (Doc.chars ∘ partWords bareTags) = parts.map (String.toList ∘ listPart bareTags) :=
    List.map_congr_left fun part member => chars_partWords bareTags (sound part member)
  rw [← String.toList_inj, String.toList_ofList, pattern, Written.chars_joined_conses, String.toList_intercalate,
    List.map_map, List.map_map, texts]
  rfl

/-- **The Elm text of a list pattern is read as its parts.** -/
theorem consPattern?_pattern (bareTags : BareTags) {parts : List ListPart} (some_ : parts ≠ [])
    (sound : ∀ part ∈ parts, Sound.ListPart part) (named : ∀ part ∈ parts, IsNamed part) :
    consPattern? (pattern bareTags (.list parts)) = some (parts.map operandOf) := by
  have phrase : Phrase false (joined conses (parts.map (partWords bareTags))) := by
    refine phrase_joined phrase_conses (by simpa using some_) ?_
    simp only [List.forall_mem_map]
    exact fun part member => phrase_partWords bareTags (sound part member) (named part member)
  rw [← chars_joined_partWords bareTags sound, consPattern?, tokenize, Written.significant_tokenizeAt (phrase.lexes rfl),
    (phrase.balanced ⟨1, 1⟩).significant]
  exact mapM_splitOnP_joined bareTags some_ sound named ⟨1, 1⟩

end DerwLang.Elm
