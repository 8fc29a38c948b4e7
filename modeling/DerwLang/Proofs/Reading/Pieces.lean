/-
**Reading the parts of a written text.**

A reader reads a document when it gives, wherever the document stands in the source, the value that is meant (`Reads`). The
value may depend on the level that the document stands at, and the document stands to the right of the column that the
lines of its level start from (`Indented`). Main facts:

* `holds_joined`: cutting at the separators of a written list gives windows that hold its parts;
* `mapM_holds`: where each part is read, the list of them is.
-/

import DerwLang.Grammar.Declaration
import DerwLang.Proofs.Layout.Text
import Mathlib.Data.List.Forall2

namespace DerwLang

open Layout

/-! ## Places -/

/-- The place is to the right of the column that the lines of a level start from. -/
def Indented (level : Nat) (position : Position) : Prop :=
  4 * level < position.column

namespace Indented

variable {level : Nat} {position : Position}

theorem step (indented : Indented level position) {c : Char} (notFeed : c ≠ '\n') : Indented level (position.step c) := by
  unfold Indented at indented ⊢
  simp only [Position.step, beq_iff_eq, notFeed, if_false]
  omega

theorem word (indented : Indented level position) {own : List Char} (solid : Solid own) :
    Indented level (position.after (deepen^[level] own)) :=
  Doc.column_after_word solid indented

theorem flat (indented : Indented level position) {own : List Char} (flat : '\n' ∉ own) :
    Indented level (position.after own) := by
  unfold Indented at indented ⊢
  rw [after_flat flat]
  simp only
  omega

theorem doc (indented : Indented level position) {doc : Doc} (firm : doc.Firm) :
    Indented level (position.after (doc.shift level).chars) :=
  Doc.column_after_chars firm indented

theorem line (blank : Bool) (indent : Nat) : Indented level (position.after (Doc.lineChars blank (indent + 4 * level))) := by
  unfold Indented
  rw [Doc.after_lineChars]
  simp only
  omega

/-- A line that is moved in starts at the next level. -/
theorem deeper (blank : Bool) : Indented (level + 1) (position.after (Doc.lineChars blank (4 + 4 * level))) := by
  unfold Indented
  rw [Doc.after_lineChars]
  simp only
  omega

end Indented

/-! ## Pieces that are moved in -/

namespace Doc

section Moved

variable (levels : Nat)

@[simp]
theorem shift_single (kind : Token.Kind) (own : List Char) :
    (single kind own).shift levels = single kind (deepen^[levels] own) := rfl

@[simp]
theorem shift_beside (first second : Doc) :
    (first.beside second).shift levels = (first.shift levels).beside (second.shift levels) := by
  simp [beside]

@[simp]
theorem shift_under (blank : Bool) (indent : Nat) (first second : Doc) :
    (first.under blank indent second).shift levels =
      (first.shift levels).under blank (indent + 4 * levels) (second.shift levels) := by
  simp [under]

@[simp]
theorem shift_comma (doc : Doc) : doc.comma.shift levels = (doc.shift levels).comma := by
  simp [comma]

@[simp]
theorem shift_label (doc : Doc) : doc.label.shift levels = (doc.shift levels).label := by
  simp [label]

@[simp]
theorem shift_round (inside : Doc) : (round inside).shift levels = round (inside.shift levels) := by
  simp [round]

@[simp]
theorem shift_curly (inside : Doc) : (curly inside).shift levels = curly (inside.shift levels) := by
  simp [curly]

@[simp]
theorem shift_bracketed (inside : Doc) : (bracketed inside).shift levels = bracketed (inside.shift levels) := by
  simp [bracketed]

@[simp]
theorem shift_keyword (word : Keyword) : (keyword word).shift levels = keyword word := by
  rw [keyword, shift_single, iterate_flat]
  cases word <;> decide

/-- What stands below is moved in by one more level. -/
@[simp]
theorem shift_above (first second : Doc) :
    (above first second).shift levels = (first.shift levels).under false (4 + 4 * levels) (second.shift (levels + 1)) := by
  rw [above, shift_under, shift_shift, Nat.add_comm 1 levels]

/-- Documents joined in a way that moves with them. -/
theorem shift_joined {glue : Doc → Doc → Doc}
    (glued : ∀ first second : Doc, (glue first second).shift levels = glue (first.shift levels) (second.shift levels))
    (docs : List Doc) : (joined glue docs).shift levels = joined glue (docs.map (shift levels)) := by
  induction docs with
  | nil => rfl
  | cons doc rest step =>
    cases rest with
    | nil => rfl
    | cons next more =>
      rw [joined, glued, step]
      rfl

end Moved

/-! ## Documents on one line -/

/-- The document is on one line. -/
def Flat : Doc → Prop
  | done => True
  | word _ own rest => '\n' ∉ own ∧ rest.Flat
  | list inside rest => inside.Flat ∧ rest.Flat
  | space rest => rest.Flat
  | line _ _ _ => False

attribute [local simp] Flat

@[simp]
theorem flat_append {first second : Doc} : (first ++ second).Flat ↔ first.Flat ∧ second.Flat := by
  induction first <;> simp_all [and_assoc]

/-- What is on one line is the same at all levels. -/
theorem Flat.shift {doc : Doc} (flat : doc.Flat) (levels : Nat) : doc.shift levels = doc := by
  induction doc with
  | done => rfl
  | word kind own rest step => rw [shift_word, iterate_flat flat.1, step flat.2]
  | list inside rest one two => rw [shift_list, one flat.1, two flat.2]
  | space rest step => rw [shift_space, step flat]
  | line blank indent rest => exact flat.elim

theorem Flat.chars {doc : Doc} (flat : doc.Flat) : '\n' ∉ doc.chars := by
  induction doc with
  | done => simp
  | word kind own rest step => simp [flat.1, step flat.2]
  | list inside rest one two => simp [one flat.1, two flat.2]
  | space rest step => simp [step flat]
  | line blank indent rest => exact flat.elim

theorem flat_single {own : List Char} (flat : '\n' ∉ own) (kind : Token.Kind) : (single kind own).Flat := ⟨flat, trivial⟩

theorem flat_beside {first second : Doc} (one : first.Flat) (two : second.Flat) : (first.beside second).Flat :=
  flat_append.mpr ⟨one, two⟩

theorem flat_round {inside : Doc} (flat : inside.Flat) : (Doc.round inside).Flat := by
  simp [Doc.round, single, flat]

theorem flat_curly {inside : Doc} (flat : inside.Flat) : (curly inside).Flat := by
  simp [curly, single, flat]

theorem flat_label {doc : Doc} (flat : doc.Flat) : doc.label.Flat :=
  flat_append.mpr ⟨flat, flat_single (by decide) _⟩

theorem flat_commas {first second : Doc} (one : first.Flat) (two : second.Flat) : (commas first second).Flat :=
  flat_beside (flat_append.mpr ⟨one, flat_single (by decide) _⟩) two

theorem flat_words {text : String} (sound : Sound.Name text) : (words text).Flat := by
  rw [words_of_isWord sound]
  exact flat_single (not_mem_of_isNameChar sound.isNameChar) _

theorem flat_joined {glue : Doc → Doc → Doc}
    (glued : ∀ {first second : Doc}, first.Flat → second.Flat → (glue first second).Flat) {docs : List Doc}
    (flat : ∀ doc ∈ docs, doc.Flat) : (joined glue docs).Flat := by
  induction docs with
  | nil => trivial
  | cons doc rest step =>
    rw [List.forall_mem_cons] at flat
    cases rest with
    | nil => exact flat.1
    | cons next more => exact glued flat.1 (step flat.2)

/-- A name is the same at all levels. -/
theorem shift_words (levels : Nat) {text : String} (sound : Sound.Name text) : (words text).shift levels = words text :=
  (flat_words sound).shift levels

/-! ## Documents in a row -/

/-- Documents with a space before each. -/
def spaced : List Doc → Doc
  | [] => .done
  | doc :: rest => .space (doc ++ spaced rest)

theorem joined_beside (first : Doc) (docs : List Doc) : joined beside (first :: docs) = first ++ spaced docs := by
  induction docs generalizing first with
  | nil => simp [joined, spaced]
  | cons next rest step =>
    rw [joined, step]
    rfl

theorem joined_cons {glue : Doc → Doc → Doc} {docs : List Doc} (some_ : docs ≠ []) (first : Doc) :
    joined glue (first :: docs) = glue first (joined glue docs) := by
  cases docs with
  | nil => exact absurd rfl some_
  | cons next rest => rfl

/-- What is joined is no larger than the whole. -/
theorem le_joined {measure : Doc → Nat} {glue : Doc → Doc → Doc}
    (glued : ∀ first second : Doc, measure first + measure second ≤ measure (glue first second)) {docs : List Doc}
    {doc : Doc} (member : doc ∈ docs) : measure doc ≤ measure (joined glue docs) := by
  induction docs with
  | nil => simp at member
  | cons first rest step =>
    cases rest with
    | nil => simp [List.mem_singleton.mp member, joined]
    | cons next more =>
      have both := glued first (joined glue (next :: more))
      rw [joined]
      rcases List.mem_cons.mp member with rfl | later
      · omega
      · have := step later
        omega

/-- A document that starts with something that shows starts with a word. -/
theorem word_of_starts {doc : Doc} (starts : Starts doc.chars) :
    (∃ kind own rest, doc = .word kind own rest) ∨ ∃ inside rest, doc = .list inside rest := by
  obtain ⟨c, rest, same, visible⟩ := starts
  cases doc with
  | done => simp at same
  | word kind own rest => exact .inl ⟨kind, own, rest, rfl⟩
  | list inside rest => exact .inr ⟨inside, rest, rfl⟩
  | space rest =>
    obtain ⟨rfl, -⟩ := List.cons.inj same
    exact absurd visible (by decide)
  | line blank indent rest =>
    rw [chars_line, lineChars] at same
    have feed : c = '\n' := by
      cases blank <;> exact (List.cons.inj same).1.symm
    subst feed
    exact absurd visible (by decide)

/-- The first word of such a document is at its place. -/
theorem tokens_of_starts {doc : Doc} (starts : Starts doc.chars) (level : Nat) (position : Position) :
    ∃ token rest, (doc.shift level).tokens position = token :: rest ∧ token.line = position.line ∧
      token.column = position.column := by
  rcases word_of_starts starts with ⟨kind, own, rest, rfl⟩ | ⟨inside, rest, rfl⟩
  · exact ⟨_, _, rfl, rfl, rfl⟩
  · exact ⟨_, _, rfl, rfl, rfl⟩

theorem size_pos {doc : Doc} (starts : Starts doc.chars) : 0 < doc.size := by
  rcases word_of_starts starts with ⟨kind, own, rest, rfl⟩ | ⟨inside, rest, rfl⟩
  · exact Nat.succ_pos _
  · exact Nat.succ_pos _

/-! ## Kinds -/

/-- The kinds of the words of a document. -/
def kinds : Doc → List Token.Kind
  | done => []
  | word kind _ rest => kind :: rest.kinds
  | list _ rest => .literal :: rest.kinds
  | space rest => rest.kinds
  | line _ _ rest => rest.kinds

@[simp]
theorem kinds_append (first second : Doc) : (first ++ second).kinds = first.kinds ++ second.kinds := by
  induction first <;> simp_all [kinds]

@[simp]
theorem kinds_shift (levels : Nat) (doc : Doc) : (doc.shift levels).kinds = doc.kinds := by
  induction doc <;> simp_all [kinds]

theorem map_kind_tokens (position : Position) (doc : Doc) : (doc.tokens position).map Token.kind = doc.kinds := by
  induction doc generalizing position <;> simp_all [kinds, tokens]

theorem kind_mem {doc : Doc} {position : Position} {token : Token} (member : token ∈ doc.tokens position) :
    token.kind ∈ doc.kinds := by
  rw [← map_kind_tokens position]
  exact List.mem_map_of_mem member

theorem kinds_words {kind : Token.Kind} {text : String} (isWord : IsWord kind text.toList) : (words text).kinds = [kind] := by
  rw [words_of_isWord isWord]
  rfl

/-- What occurs in a row occurs in one of its documents or between two of them. -/
theorem mem_kinds_joined {glue : Doc → Doc → Doc} {between : List Token.Kind}
    (glued : ∀ first second : Doc, (glue first second).kinds = first.kinds ++ (between ++ second.kinds)) {docs : List Doc}
    {kind : Token.Kind} (member : kind ∈ (joined glue docs).kinds) : kind ∈ between ∨ ∃ doc ∈ docs, kind ∈ doc.kinds := by
  induction docs with
  | nil => simp [joined, kinds] at member
  | cons doc rest step =>
    cases rest with
    | nil => exact .inr ⟨doc, List.mem_cons_self, member⟩
    | cons next more =>
      rw [joined, glued, List.mem_append, List.mem_append] at member
      rcases member with own | other | later
      · exact .inr ⟨doc, List.mem_cons_self, own⟩
      · exact .inl other
      · rcases step later with other | ⟨found, among, own⟩
        · exact .inl other
        · exact .inr ⟨found, List.mem_cons_of_mem _ among, own⟩

end Doc

/-! ## Readers -/

/-- The reader reads the document, wherever it stands, as the value for its level. -/
def Reads {α : Type} (read : Window → Parsed α) (doc : Doc) (value : Nat → α) : Prop :=
  ∀ (level before : Nat) (position : Position), Indented level position →
    read ⟨before, (doc.shift level).tokens position⟩ = .ok (value level)

/-- The window holds the words of the document, which stands at the level. -/
def Holds (level : Nat) (window : Window) (doc : Doc) : Prop :=
  ∃ position before, Indented level position ∧ window = ⟨before, (doc.shift level).tokens position⟩

theorem Reads.of_holds {α : Type} {read : Window → Parsed α} {doc : Doc} {value : Nat → α} (reads : Reads read doc value)
    {level : Nat} {window : Window} (holds : Holds level window doc) : read window = .ok (value level) := by
  obtain ⟨position, before, indented, rfl⟩ := holds
  exact reads level before position indented

/-- What follows from being related to one of some things holds of all that are. -/
theorem forall_of_forall₂ {α β : Type} {r : α → β → Prop} {P : α → Prop} {firsts : List α} {seconds : List β}
    (related : List.Forall₂ r firsts seconds) (each : ∀ second ∈ seconds, ∀ first, r first second → P first) :
    ∀ first ∈ firsts, P first := by
  induction related with
  | nil => simp
  | cons one _ step =>
    rw [List.forall_mem_cons] at each ⊢
    exact ⟨each.1 _ one, step each.2⟩

/-- A relation to members of a list may use that they are members. -/
theorem forall₂_imp_mem {α β : Type} {r s : α → β → Prop} {firsts : List α} {seconds : List β}
    (related : List.Forall₂ r firsts seconds) (each : ∀ second ∈ seconds, ∀ first, r first second → s first second) :
    List.Forall₂ s firsts seconds := by
  induction related with
  | nil => exact .nil
  | cons one _ step =>
    rw [List.forall_mem_cons] at each
    exact .cons (each.1 _ one) (step each.2)

/-- Values that are read one by one are read together. -/
theorem mapM_ok {α β : Type} {read : α → Parsed β} {inputs : List α} {values : List β}
    (each : List.Forall₂ (fun input value => read input = .ok value) inputs values) : inputs.mapM read = .ok values := by
  induction each with
  | nil => rfl
  | cons one _ step => rw [List.mapM_cons, one, step]; rfl

/-- **Windows that hold documents are read as the values that the documents are read as.** -/
theorem mapM_holds {α β : Type} {read : Window → Parsed β} {items : List α} {doc : α → Doc} {value : α → Nat → β}
    {level : Nat} {windows : List Window} (holds : List.Forall₂ (Holds level) windows (items.map doc))
    (reads : ∀ item ∈ items, Reads read (doc item) (value item)) :
    windows.mapM read = .ok (items.map fun item => value item level) := by
  rw [List.forall₂_map_right_iff] at holds
  refine mapM_ok (List.forall₂_map_right_iff.mpr (forall₂_imp_mem holds ?_))
  exact fun item member window one => (reads item member).of_holds one

/-! ## Cutting at separators -/

/-- Two documents are glued by a separator. -/
def Separates (glue : Doc → Doc → Doc) (separator : Token.Kind) : Prop :=
  ∀ {first : Doc}, first.Firm → ∀ (second : Doc) {level : Nat} {position : Position}, Indented level position →
    ∃ token place, token.kind = separator ∧ Indented level place ∧
      ((glue first second).shift level).tokens position =
        (first.shift level).tokens position ++ token :: (second.shift level).tokens place

theorem separates_commas : Separates Doc.commas .comma := by
  intro first firm second level position indented
  let place := position.after (first.shift level).chars
  refine ⟨⟨.comma, ",", place.line, place.column⟩, (place.step ',').step ' ', rfl,
    ((indented.doc firm).step (by decide)).step (by decide), ?_⟩
  simp [Doc.commas, Doc.beside, Doc.comma, Doc.single, Doc.tokens, iterate_flat, after_append, after_cons, place]

theorem separates_commaLines : Separates Doc.commaLines .comma := by
  intro first firm second level position indented
  let place := position.after (first.shift level).chars
  refine ⟨⟨.comma, ",", place.line, place.column⟩, (place.step ',').after (Doc.lineChars false (4 + 4 * level)), rfl,
    .line false 4, ?_⟩
  simp [Doc.commaLines, Doc.under, Doc.comma, Doc.single, Doc.tokens, iterate_flat, after_append, after_cons, place]

/-- A sign with a space on each side. -/
theorem separates_sign (kind : Token.Kind) (own : List Char) (flat : '\n' ∉ own) :
    Separates (fun first second => first.beside ((Doc.single kind own).beside second)) kind := by
  intro first firm second level position indented
  let place := (position.after (first.shift level).chars).step ' '
  refine ⟨⟨kind, String.ofList own, place.line, place.column⟩, (place.after own).step ' ', rfl,
    (((indented.doc firm).step (by decide)).flat flat).step (by decide), ?_⟩
  simp [Doc.beside, Doc.single, Doc.tokens, iterate_flat flat, place]

theorem separates_conses : Separates Doc.conses (.operator .cons) :=
  separates_sign (.operator .cons) [':', ':'] (by decide)

theorem foldr_pushFirst (line : Nat) (tokens : List Token) (more : List Window) :
    tokens.foldr (Window.pushFirst line) (⟨line, []⟩ :: more) = ⟨line, tokens⟩ :: more := by
  induction tokens with
  | nil => rfl
  | cons token rest step => rw [List.foldr_cons, step]; rfl

/-- **Cutting at the separators gives the parts.** -/
theorem holds_joined {glue : Doc → Doc → Doc} {separator : Token.Kind} (separates : Separates glue separator)
    {docs : List Doc} (some_ : docs ≠ []) (firm : ∀ doc ∈ docs, doc.Firm)
    (carried : ∀ doc ∈ docs, ∀ level position,
      Balanced.Carrying separator 0 ((doc.shift level).tokens position) 0)
    {level : Nat} {position : Position} (indented : Indented level position) (before : Nat) :
    List.Forall₂ (Holds level)
      (Window.splitFrom separator 0 before (((Doc.joined glue docs).shift level).tokens position)) docs := by
  induction docs generalizing position before with
  | nil => exact absurd rfl some_
  | cons doc rest step =>
    rw [List.forall_mem_cons] at firm carried
    have own := carried.1 level position
    cases rest with
    | nil =>
      have whole := own before []
      rw [List.append_nil, Window.splitFrom, foldr_pushFirst] at whole
      rw [Doc.joined, whole]
      exact .cons ⟨position, before, indented, rfl⟩ .nil
    | cons next more =>
      obtain ⟨token, place, same, right, tokens⟩ := separates firm.1 (Doc.joined glue (next :: more)) indented
      have start : Window.splitFrom separator 0 before (token :: ((Doc.joined glue (next :: more)).shift level).tokens place) =
          ⟨before, []⟩ ::
            Window.splitFrom separator 0 token.line (((Doc.joined glue (next :: more)).shift level).tokens place) := by
        rw [Window.splitFrom, if_pos (by simp [same])]
      rw [Doc.joined, tokens, own, start, foldr_pushFirst]
      exact .cons ⟨position, before, indented, rfl⟩
        (step (List.cons_ne_nil next more) firm.2 carried.2 right token.line)

/-- Commas part phrases in which there is none outside of brackets. -/
theorem carrying_comma {doc : Doc} (phrase : Phrase false doc) (level : Nat) (position : Position) :
    Balanced.Carrying .comma 0 ((doc.shift level).tokens position) 0 :=
  ((phrase.shift level).balanced position).splitFrom (fun _ _ _ => rfl) 0 (by simp)

end DerwLang
