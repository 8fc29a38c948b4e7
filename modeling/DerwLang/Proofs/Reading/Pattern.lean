/-
**Written patterns are read back.**

* `Written.read_pattern`: the words of a pattern are read as the pattern, with the texts in it as they stand at their level.
-/

import DerwLang.Grammar.Pattern
import DerwLang.Proofs.Layout.Settled
import DerwLang.Proofs.Reading.Type

namespace DerwLang

open Grammar Layout

namespace Written

open Doc

/-! ## Tags -/

/-- **The names of the fields of a tag are read back.** -/
theorem read_patternFields (tag : String) {fields : List String} (some_ : fields ≠ [])
    (sound : ∀ field ∈ fields, Sound.Name field) {closing : Token} (closes : closing.kind = .closeCurly) (before : Nat)
    (position : Position) (rest : List Token) :
    patternFields tag before ((joined commas (fields.map words)).tokens position ++ closing :: rest) =
      .ok (fields, ⟨closing.line, rest⟩) := by
  induction fields generalizing before position with
  | nil => exact absurd rfl some_
  | cons field more step =>
    rw [List.forall_mem_cons] at sound
    cases more with
    | nil => simp [joined, tokens_words sound.1, patternFields, closes]
    | cons next others =>
      have later := step (List.cons_ne_nil next others) sound.2
      rw [List.map_cons] at later
      rw [List.map_cons, List.map_cons, joined, commas, beside, comma, tokens_append, tokens_append, tokens_words sound.1]
      simp [single, Doc.tokens, patternFields, later, bind, Except.bind, pure, Except.pure]

/-- A tag is on one line. -/
theorem flat_tagPattern {shape : TagPattern} (sound : Sound.TagPattern shape) : (tagPattern shape).Flat := by
  rw [tagPattern]
  refine flat_beside (flat_words sound.1) ?_
  split
  · exact ⟨by decide, flat_single (by decide) _⟩
  · exact flat_curly (flat_joined flat_commas (List.forall_mem_map.mpr fun field member =>
      flat_words (sound.2.2 field member)))

/-- **A tag with its fields is read back.** -/
theorem read_tagPattern {shape : TagPattern} (sound : Sound.TagPattern shape) (position : Position) :
    ∃ rest, (tagPattern shape).tokens position = ⟨.identifier, shape.tag, position.line, position.column⟩ :: rest ∧
      ∀ before, ∃ line, Grammar.tagPattern shape.tag ⟨before, rest⟩ = .ok (shape, ⟨line, []⟩) := by
  obtain ⟨tag, fields⟩ := shape
  rw [tagPattern, beside, tokens_append, tokens_words sound.1, List.singleton_append]
  refine ⟨_, rfl, fun before => ?_⟩
  cases fields with
  | nil => exact ⟨_, rfl⟩
  | cons field more =>
    have inside {closing : Token} := @read_patternFields tag (field :: more) (List.cons_ne_nil field more) sound.2.2 closing
    simp only [List.isEmpty_cons, Bool.false_eq_true, if_false, curly, single, Doc.tokens, tokens_append, Grammar.tagPattern,
      beq_self_eq_true, if_true]
    exact ⟨_, by rw [inside rfl]; rfl⟩

/-! ## Patterns -/

/-- The kinds of the words in tags and in other parts of list patterns. -/
def isPartKind : Token.Kind → Bool
  | .identifier | .literal | .string | .formatString | .comma | .openCurly | .closeCurly => true
  | _ => false

theorem kinds_fieldNames {fields : List String} (sound : ∀ field ∈ fields, Sound.Name field) :
    ∀ kind ∈ (joined commas (fields.map words)).kinds, isPartKind kind = true := by
  intro kind member
  have glued : ∀ first second : Doc, (commas first second).kinds = first.kinds ++ ([.comma] ++ second.kinds) := by
    simp [commas, comma, beside, single, kinds]
  rcases mem_kinds_joined glued member with separator | ⟨doc, among, own⟩
  · rw [List.mem_singleton.mp separator]
    rfl
  · obtain ⟨field, isField, rfl⟩ := List.mem_map.mp among
    rw [kinds_words (sound field isField)] at own
    rw [List.mem_singleton.mp own]
    rfl

theorem kinds_tagPattern {shape : TagPattern} (sound : Sound.TagPattern shape) :
    ∀ kind ∈ (tagPattern shape).kinds, isPartKind kind = true := by
  intro kind member
  rw [tagPattern, beside, kinds_append, kinds_words sound.1] at member
  split at member
  · simp only [single, kinds, List.mem_append, List.mem_cons, List.not_mem_nil, or_false] at member
    rcases member with rfl | rfl | rfl <;> rfl
  · simp only [curly, single, kinds, kinds_append, List.mem_append, List.mem_cons, List.not_mem_nil, or_false] at member
    rcases member with rfl | rfl | own | rfl
    · rfl
    · rfl
    · exact kinds_fieldNames sound.2.2 kind own
    · rfl

theorem kinds_listPart {part : ListPart} (sound : Sound.ListPart part) :
    ∀ kind ∈ (listPart part).kinds, isPartKind kind = true := by
  cases part with
  | name name => simp [listPart, kinds_words sound.1, isPartKind]
  | tag shape => exact kinds_tagPattern sound
  | string text => simp [listPart, quoted, single, kinds, isPartKind]
  | formatString text => simp [listPart, backquoted, single, kinds, isPartKind]
  | emptyList => simp [listPart, kinds, isPartKind]

/-- No arrow occurs in a pattern. -/
theorem no_arrow_pattern {shape : Pattern} (sound : Sound.Pattern shape) : Token.Kind.arrow ∉ (pattern shape).kinds := by
  intro member
  cases shape with
  | tag shape => exact absurd (kinds_tagPattern sound _ member) (by decide)
  | list parts =>
    have glued : ∀ first second : Doc, (conses first second).kinds = first.kinds ++ ([.operator .cons] ++ second.kinds) := by
      simp [conses, beside, single, kinds]
    rcases mem_kinds_joined glued member with separator | ⟨doc, among, own⟩
    · simp at separator
    · obtain ⟨part, isPart, rfl⟩ := List.mem_map.mp among
      exact absurd (kinds_listPart (sound.2.1 part isPart) _ own) (by decide)
  | string text => simp [pattern, quoted, single, kinds] at member
  | formatString text => simp [pattern, backquoted, single, kinds] at member
  | emptyList => simp [pattern, kinds] at member
  | otherwise => simp [pattern, keyword, single, kinds] at member

/-- The literal of the empty list is told to be empty. -/
theorem isEmptyList_brackets (line column : Nat) :
    isEmptyList ⟨.literal, String.ofList (listChars done), line, column⟩ = true := by
  simp [isEmptyList, isListLiteral, listChars, Text.startsWith, unquote, Text.isBlankLine]

/-- **A part of a list pattern is read back.** -/
theorem read_listPart {part : ListPart} (sound : Sound.ListPart part) {level : Nat} {window : Window}
    (holds : Holds level window (listPart part)) :
    ∃ line, Grammar.listPart window = .ok (Settled.listPart level part, ⟨line, []⟩) := by
  obtain ⟨position, before, -, rfl⟩ := holds
  cases part with
  | emptyList =>
    refine ⟨position.line, ?_⟩
    rw [listPart, shift_list, shift_done, Doc.tokens, Doc.tokens, Grammar.listPart]
    simp [isEmptyList_brackets, Window.expectEnd, bind, Except.bind, pure, Except.pure, Settled.listPart]
  | string text => exact ⟨_, rfl⟩
  | formatString text => exact ⟨_, rfl⟩
  | name name =>
    refine ⟨position.line, ?_⟩
    rw [listPart, shift_words level sound.1, tokens_words sound.1, Grammar.listPart]
    simp [sound.2.1, sound.2.2, Window.expectEnd, bind, Except.bind, pure, Except.pure, Settled.listPart]
  | tag shape =>
    obtain ⟨rest, tokens, read⟩ := read_tagPattern sound position
    obtain ⟨line, same⟩ := read position.line
    refine ⟨line, ?_⟩
    rw [listPart, (flat_tagPattern sound).shift level, tokens, Grammar.listPart]
    simp [sound.2.1, same, Window.expectEnd, bind, Except.bind, pure, Except.pure, Settled.listPart]

/-- **The parts of a list pattern are read back**; the empty list stands in the last place only. -/
theorem read_listParts {parts : List ListPart} (sound : ∀ part ∈ parts, Sound.ListPart part)
    (ends : ∀ before after, parts = before ++ .emptyList :: after → after = []) {level : Nat} {windows : List Window}
    (holds : List.Forall₂ (Holds level) windows (parts.map listPart)) :
    listParts windows = .ok (parts.map (Settled.listPart level)) := by
  induction parts generalizing windows with
  | nil =>
    cases holds
    rfl
  | cons part rest step =>
    rw [List.forall_mem_cons] at sound
    cases holds with
    | @cons window _ more _ one others =>
      obtain ⟨line, first⟩ := read_listPart sound.1 one
      have later := step sound.2 (fun before after same => ends (part :: before) after (by rw [same]; rfl)) others
      have stays : (Settled.listPart level part == .emptyList && !more.isEmpty) = false := by
        cases part with
        | emptyList =>
          have none_ : rest = [] := ends [] rest rfl
          subst none_
          cases others
          rfl
        | _ => rfl
      rw [listParts, first]
      simp [stays, later, bind, Except.bind, pure, Except.pure]

theorem any_kind (doc : Doc) (kind : Token.Kind) (level : Nat) (position : Position) :
    ((doc.shift level).tokens position).any (fun token => token.kind == kind) = doc.kinds.any (· == kind) := by
  rw [← kinds_shift level doc, ← map_kind_tokens position, List.any_map]
  rfl

/-- A pattern that is no list pattern is read as one pattern. -/
theorem pattern_single {part : ListPart} (sound : Sound.ListPart part) (level before : Nat) (position : Position) :
    Grammar.pattern ⟨before, ((listPart part).shift level).tokens position⟩ =
      singlePattern ⟨before, ((listPart part).shift level).tokens position⟩ := by
  have absent : (listPart part).kinds.any (· == .operator .cons) = false := by
    rw [List.any_eq_false]
    intro kind member same
    rw [beq_iff_eq.mp same] at member
    exact absurd (kinds_listPart sound _ member) (by decide)
  rw [Grammar.pattern, if_neg]
  rw [any_kind, absent]
  simp

/-- **A pattern is read back.** -/
theorem read_pattern {shape : Pattern} (sound : Sound.Pattern shape) :
    Reads Grammar.pattern (pattern shape) fun level => Settled.pattern level shape := by
  intro level before position indented
  cases shape with
  | tag shape =>
    obtain ⟨rest, tokens, read⟩ := read_tagPattern sound position
    obtain ⟨line, same⟩ := read position.line
    have single := @pattern_single (.tag shape) sound level before position
    rw [listPart] at single
    rw [pattern, single, (flat_tagPattern sound).shift level, tokens, singlePattern]
    simp [sound.2.1, same, Window.expectEnd, bind, Except.bind, pure, Except.pure, Settled.pattern]
  | string text => rfl
  | formatString text => rfl
  | emptyList =>
    have single := @pattern_single .emptyList trivial level before position
    rw [listPart] at single
    rw [pattern, single, shift_list, shift_done, Doc.tokens, Doc.tokens, singlePattern]
    simp [isEmptyList_brackets, Window.expectEnd, bind, Except.bind, pure, Except.pure, Settled.pattern]
  | otherwise => rfl
  | list parts =>
    obtain ⟨many, each, ends⟩ := sound
    have some_ : parts.map listPart ≠ [] := by
      rw [Ne, List.map_eq_nil_iff]
      rintro rfl
      simp at many
    have separated : (joined conses (parts.map listPart)).kinds.any (· == .operator .cons) = true := by
      rcases parts with _ | ⟨first, _ | ⟨second, rest⟩⟩
      · simp at many
      · simp at many
      · simp [joined, conses, beside, Doc.single, kinds]
    have absent : ∀ doc ∈ parts.map listPart, ∀ level position, ∀ token ∈ (doc.shift level).tokens position,
        token.kind = .operator .cons → Token.Kind.operator .cons = .comma := by
      rw [List.forall_mem_map]
      intro part member level position token found same
      have kind := kind_mem found
      rw [kinds_shift, same] at kind
      exact absurd (kinds_listPart (each part member) _ kind) (by decide)
    have phrases : ∀ doc ∈ parts.map listPart, Phrase false doc := by
      rw [List.forall_mem_map]
      exact fun part member => phrase_listPart (each part member)
    have cut := holds_joined separates_conses some_ (fun doc member => (phrases doc member).firm)
      (fun doc member level position => (((phrases doc member).shift level).balanced position).splitFrom
        (absent doc member level position) 0 (by simp)) indented before
    rw [pattern, Grammar.pattern, any_kind, if_pos separated, Window.splitOutside, read_listParts each ends cut]
    rfl

end Written

end DerwLang
