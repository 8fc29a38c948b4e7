/-
**Texts as words.**

A document is a text that knows its words: each has a kind and characters, a list literal holds a document of its own,
and spaces and line feeds stand between. Two things are done with a document. It is written out (`Doc.chars`), and its
words are put in their places (`Doc.tokens`). Main facts:

* `visible_chars`: where the words of a document are told apart in its text (`Doc.Lexes`), reading the text gives the
  words in their places;
* `column_after_chars`: however a document goes on, it stays to the right of the column that its lines start from.
-/

import DerwLang.Grammar.Window
import DerwLang.Proofs.Layout.Indent
import DerwLang.Proofs.Lexing.First

namespace DerwLang

open Layout

/-! ## Documents -/

/-- A text as words with what stands between them. -/
inductive Doc
  | done
  | word (kind : Token.Kind) (chars : List Char) (rest : Doc)
  /-- a list literal, with the document between its brackets -/
  | list (inside rest : Doc)
  | space (rest : Doc)
  /-- a new line, perhaps after an empty one -/
  | line (blank : Bool) (indent : Nat) (rest : Doc)
deriving DecidableEq, Repr

namespace Doc

/-- One document after the other. -/
def append : Doc → Doc → Doc
  | done, after => after
  | word kind chars rest, after => word kind chars (rest.append after)
  | list inside rest, after => list inside (rest.append after)
  | space rest, after => space (rest.append after)
  | line blank indent rest, after => line blank indent (rest.append after)

instance : Append Doc := ⟨append⟩

@[simp]
theorem done_append (doc : Doc) : done ++ doc = doc := rfl

@[simp]
theorem word_append (kind : Token.Kind) (chars : List Char) (rest doc : Doc) :
    word kind chars rest ++ doc = word kind chars (rest ++ doc) := rfl

@[simp]
theorem list_append (inside rest doc : Doc) : list inside rest ++ doc = list inside (rest ++ doc) := rfl

@[simp]
theorem space_append (rest doc : Doc) : space rest ++ doc = space (rest ++ doc) := rfl

@[simp]
theorem line_append (blank : Bool) (indent : Nat) (rest doc : Doc) :
    line blank indent rest ++ doc = line blank indent (rest ++ doc) := rfl

@[simp]
theorem append_done (doc : Doc) : doc ++ done = doc := by
  induction doc <;> simp_all

theorem append_assoc (first second third : Doc) : first ++ second ++ third = first ++ (second ++ third) := by
  induction first <;> simp_all

/-- The characters of a new line. -/
def lineChars (blank : Bool) (indent : Nat) : List Char :=
  (if blank then ['\n', '\n'] else ['\n']) ++ List.replicate indent ' '

/-- The characters of a document. -/
def chars : Doc → List Char
  | done => []
  | word _ own rest => own ++ rest.chars
  | list inside rest => '[' :: (inside.chars ++ ']' :: rest.chars)
  | space rest => ' ' :: rest.chars
  | line blank indent rest => lineChars blank indent ++ rest.chars

/-- The characters of a list literal. -/
def listChars (inside : Doc) : List Char :=
  '[' :: (inside.chars ++ [']'])

/-- The document with all its further lines some levels in; the lines within a word are moved as well. -/
def shift (levels : Nat) : Doc → Doc
  | done => done
  | word kind own rest => word kind (deepen^[levels] own) (rest.shift levels)
  | list inside rest => list (inside.shift levels) (rest.shift levels)
  | space rest => space (rest.shift levels)
  | line blank indent rest => line blank (indent + 4 * levels) (rest.shift levels)

/-- The words of a document in their places, the first character being at the position. -/
def tokens : Position → Doc → List Token
  | _, done => []
  | position, word kind own rest =>
    ⟨kind, String.ofList own, position.line, position.column⟩ :: tokens (position.after own) rest
  | position, list inside rest =>
    ⟨.literal, String.ofList (listChars inside), position.line, position.column⟩ ::
      tokens (position.after (listChars inside)) rest
  | position, space rest => tokens (position.step ' ') rest
  | position, line blank indent rest => tokens (position.after (lineChars blank indent)) rest

@[simp]
theorem chars_done : done.chars = [] := rfl

@[simp]
theorem chars_word (kind : Token.Kind) (own : List Char) (rest : Doc) :
    (word kind own rest).chars = own ++ rest.chars := rfl

@[simp]
theorem chars_list (inside rest : Doc) :
    (list inside rest).chars = '[' :: (inside.chars ++ ']' :: rest.chars) := rfl

@[simp]
theorem chars_space (rest : Doc) : (space rest).chars = ' ' :: rest.chars := rfl

@[simp]
theorem chars_line (blank : Bool) (indent : Nat) (rest : Doc) :
    (line blank indent rest).chars = lineChars blank indent ++ rest.chars := rfl

@[simp]
theorem chars_append (first second : Doc) : (first ++ second).chars = first.chars ++ second.chars := by
  induction first <;> simp_all

@[simp]
theorem shift_done (levels : Nat) : done.shift levels = done := rfl

@[simp]
theorem shift_word (levels : Nat) (kind : Token.Kind) (own : List Char) (rest : Doc) :
    (word kind own rest).shift levels = word kind (deepen^[levels] own) (rest.shift levels) := rfl

@[simp]
theorem shift_list (levels : Nat) (inside rest : Doc) :
    (list inside rest).shift levels = list (inside.shift levels) (rest.shift levels) := rfl

@[simp]
theorem shift_space (levels : Nat) (rest : Doc) : (space rest).shift levels = space (rest.shift levels) := rfl

@[simp]
theorem shift_line (levels : Nat) (blank : Bool) (indent : Nat) (rest : Doc) :
    (line blank indent rest).shift levels = line blank (indent + 4 * levels) (rest.shift levels) := rfl

@[simp]
theorem shift_append (levels : Nat) (first second : Doc) :
    (first ++ second).shift levels = first.shift levels ++ second.shift levels := by
  induction first <;> simp_all

@[simp]
theorem shift_zero (doc : Doc) : doc.shift 0 = doc := by
  induction doc <;> simp_all

@[simp]
theorem shift_shift (first second : Nat) (doc : Doc) :
    (doc.shift first).shift second = doc.shift (first + second) := by
  induction doc with
  | word kind own rest step => simp [step, Nat.add_comm first second, Function.iterate_add_apply]
  | line blank indent rest step => simp [step, Nat.mul_add, Nat.add_assoc]
  | _ => simp_all

/-! ## Places -/

@[simp]
theorem tokens_done (position : Position) : done.tokens position = [] := rfl

@[simp]
theorem tokens_append (position : Position) (first second : Doc) :
    (first ++ second).tokens position = first.tokens position ++ second.tokens (position.after first.chars) := by
  induction first generalizing position with
  | done => simp
  | word kind own rest step => simp [tokens, step, after_append]
  | list inside rest _ step => simp [tokens, step, listChars, after_append, after_cons]
  | space rest step => simp [tokens, step, after_cons]
  | line blank indent rest step => simp [tokens, step, after_append]

/-- A new line is at its indentation. -/
theorem after_lineChars (position : Position) (blank : Bool) (indent : Nat) :
    position.after (lineChars blank indent) =
      ⟨position.line + (if blank then 2 else 1), indent + 1⟩ := by
  have spaces : '\n' ∉ List.replicate indent ' ' := by simp
  rw [lineChars, after_append, after_flat spaces]
  cases blank <;> simp [after_cons, Position.step, Nat.add_comm, Nat.add_left_comm]

/-- Every word starts and ends with something that shows, and so does what stands on a new line. -/
def Firm : Doc → Prop
  | done => True
  | word _ own rest => Solid own ∧ rest.Firm
  | list inside rest => inside.Firm ∧ rest.Firm
  | space rest => rest.Firm
  | line _ _ rest => Starts rest.chars ∧ rest.Firm

theorem Firm.word {kind : Token.Kind} {own : List Char} {rest : Doc} (solid : Solid own) (firm : rest.Firm) :
    (word kind own rest).Firm := ⟨solid, firm⟩

theorem Firm.space {rest : Doc} (firm : rest.Firm) : (space rest).Firm := firm

theorem Firm.line {blank : Bool} {indent : Nat} {rest : Doc} (starts : Starts rest.chars) (firm : rest.Firm) :
    (line blank indent rest).Firm := ⟨starts, firm⟩

theorem Firm.append {first second : Doc} (one : first.Firm) (two : second.Firm) : (first ++ second).Firm := by
  induction first with
  | done => exact two
  | word _ _ _ step => exact ⟨one.1, step one.2⟩
  | list _ _ _ step => exact ⟨one.1, step one.2⟩
  | space _ step => exact step one
  | line blank indent rest step =>
    refine ⟨?_, step one.2⟩
    have starts : Starts (rest.chars ++ second.chars) := one.1.append second.chars
    rwa [← chars_append] at starts

/-- A word stays to the right of the column that its lines start from. -/
theorem column_after_word {own : List Char} (solid : Solid own) {level : Nat} {position : Position}
    (right : 4 * level < position.column) : 4 * level < (position.after (deepen^[level] own)).column := by
  by_cases feed : '\n' ∈ own
  · have positive : ∀ (chars : List Char) (position : Position), 0 < position.column →
        0 < (position.after chars).column := by
      intro chars
      induction chars with
      | nil => exact fun _ first => first
      | cons c rest step =>
        intro position _
        refine step _ ?_
        by_cases same : c = '\n' <;> simp [Position.step, same]
    rw [column_iterate solid feed level position ⟨1, 1⟩]
    have := positive own ⟨1, 1⟩ Nat.one_pos
    omega
  · rw [iterate_flat feed, after_flat feed]
    simp only
    omega

/-- **A document stays to the right of the column that its lines start from.** -/
theorem column_after_chars {doc : Doc} (firm : doc.Firm) {level : Nat} {position : Position}
    (right : 4 * level < position.column) : 4 * level < (position.after (doc.shift level).chars).column := by
  induction doc generalizing position with
  | done => exact right
  | word kind own rest step =>
    rw [shift_word, chars_word, after_append]
    exact step firm.2 (column_after_word firm.1 right)
  | list inside rest insideStep step =>
    rw [shift_list, chars_list, after_cons, after_append, after_cons]
    refine step firm.2 ?_
    have inner : 4 * level < ((position.step '[').after (inside.shift level).chars).column :=
      insideStep firm.1 (by simp [Position.step]; omega)
    simp [Position.step] at inner ⊢
    omega
  | space rest step =>
    rw [shift_space, chars_space, after_cons]
    refine step firm ?_
    simp [Position.step]
    omega
  | line blank indent rest step =>
    rw [shift_line, chars_line, after_append, after_lineChars]
    refine step firm.2 ?_
    simp only
    omega

/-- The characters of a new line with something on it, moved in. -/
theorem deepen_lineChars (blank : Bool) (indent : Nat) {rest : List Char} (starts : Starts rest) :
    deepen (lineChars blank indent ++ rest) = lineChars blank (indent + 4) ++ deepen rest := by
  cases blank with
  | false => exact deepen_feed indent starts
  | true =>
    have later := deepen_feed indent starts
    rw [deepen, deepenFrom] at later
    have first : deepen (lineChars true indent ++ rest) =
        '\n' :: deepenFrom (some []) ('\n' :: (List.replicate indent ' ' ++ rest)) := rfl
    rw [first, deepenFrom, later]
    rfl

/-- **Moving the text in is moving the document in.** -/
theorem deepen_chars {doc : Doc} (firm : doc.Firm) (after : List Char) :
    deepen (doc.chars ++ after) = (doc.shift 1).chars ++ deepen after := by
  induction doc generalizing after with
  | done => rfl
  | word kind own rest step =>
    rw [chars_word, List.append_assoc, deepen_append firm.1.2, step firm.2, shift_word, chars_word,
      List.append_assoc]
    rfl
  | list inside rest insideStep step =>
    have opening : Ends ['['] := ends_singleton (by decide)
    have closing : Ends [']'] := ends_singleton (by decide)
    rw [chars_list, ← List.singleton_append, List.append_assoc, deepen_append opening, List.append_assoc,
      insideStep firm.1, List.cons_append, ← List.singleton_append (l := rest.chars ++ after),
      deepen_append closing, step firm.2]
    simp [deepen, deepenFrom]
  | space rest step =>
    rw [chars_space, List.cons_append, deepen_space, step firm]
    rfl
  | line blank indent rest step =>
    rw [chars_line, List.append_assoc, deepen_lineChars blank indent (firm.1.append after), step firm.2,
      shift_line, chars_line, List.append_assoc]

/-! ## Sizes -/

/-- The number of words, a list literal being one of them. -/
def count : Doc → Nat
  | done => 0
  | word _ _ rest => rest.count + 1
  | list _ rest => rest.count + 1
  | space rest => rest.count
  | line _ _ rest => rest.count

@[simp]
theorem length_tokens (position : Position) (doc : Doc) : (doc.tokens position).length = doc.count := by
  induction doc generalizing position <;> simp_all [tokens, count]

@[simp]
theorem count_append (first second : Doc) : (first ++ second).count = first.count + second.count := by
  induction first <;> simp_all [count] <;> omega

/-- The number of words, where a list literal counts with its interior and its two brackets. -/
def size : Doc → Nat
  | done => 0
  | word _ _ rest => rest.size + 1
  | list inside rest => inside.size + rest.size + 2
  | space rest => rest.size
  | line _ _ rest => rest.size

@[simp]
theorem size_append (first second : Doc) : (first ++ second).size = first.size + second.size := by
  induction first <;> simp_all [size] <;> omega

@[simp]
theorem size_shift (levels : Nat) (doc : Doc) : (doc.shift levels).size = doc.size := by
  induction doc <;> simp_all [size]

/-- There are no more words than characters. -/
theorem size_le_chars {doc : Doc} (firm : doc.Firm) : doc.size ≤ doc.chars.length := by
  induction doc with
  | done => exact Nat.le_refl 0
  | word kind own rest step =>
    obtain ⟨c, more, rfl, -⟩ := firm.1.1
    have := step firm.2
    simp only [size, chars_word, List.length_append, List.length_cons]
    omega
  | list inside rest insideStep step =>
    have := insideStep firm.1
    have := step firm.2
    simp only [size, chars_list, List.length_append, List.length_cons]
    omega
  | space rest step =>
    have := step firm
    simp only [size, chars_space, List.length_cons]
    omega
  | line blank indent rest step =>
    have := step firm.2
    simp only [size, chars_line, List.length_append]
    omega

/-- **The weight of the words bounds the size.** -/
theorem size_le_weight {doc : Doc} (firm : doc.Firm) (before : Nat) (position : Position) :
    doc.size ≤ (Window.mk before (doc.tokens position)).weight := by
  rw [Window.weight]
  induction doc generalizing position with
  | done => exact Nat.le_refl 0
  | word kind own rest step =>
    have later := step firm.2 (position.after own)
    have single : 1 ≤ (Token.mk kind (String.ofList own) position.line position.column).weight := Nat.le_max_left _ _
    rw [size, tokens, List.foldr_cons]
    exact Nat.add_comm rest.size 1 ▸ Nat.add_le_add single later
  | list inside rest _ step =>
    have later := step firm.2 (position.after (listChars inside))
    have whole : inside.size + 2 ≤
        (Token.mk .literal (String.ofList (listChars inside)) position.line position.column).weight := by
      refine Nat.le_trans ?_ (Nat.le_max_right _ _)
      have := size_le_chars firm.1
      simp only [String.length_ofList, listChars, List.length_cons, List.length_append, List.length_nil]
      omega
    rw [size, tokens, List.foldr_cons, Nat.add_right_comm]
    exact Nat.add_le_add whole later
  | space rest step => exact step firm (position.step ' ')
  | line blank indent rest step => exact step firm.2 (position.after (lineChars blank indent))

/-! ## Reading the words -/

/-- The lexemes of the text start with the given one when it is followed by the other characters. -/
def Stands (kind : Token.Kind) (own after : List Char) : Prop :=
  kind ≠ .whitespace ∧ Lexeme.scan (own ++ after) = ⟨kind, own⟩ :: Lexeme.scan after

/-- Each word is told apart from what follows it, which ends with the given characters. -/
def Lexes (after : List Char) : Doc → Prop
  | done => True
  | word kind own rest => Stands kind own (rest.chars ++ after) ∧ rest.Lexes after
  | list inside rest =>
    inside.Lexes [] ∧ Stands .literal (listChars inside) (rest.chars ++ after) ∧ rest.Lexes after
  | space rest => rest.Lexes after
  | line _ _ rest => rest.Lexes after

theorem lexes_append {first second : Doc} {after : List Char} :
    (first ++ second).Lexes after ↔ first.Lexes (second.chars ++ after) ∧ second.Lexes after := by
  induction first <;> simp_all [Lexes, and_assoc]

/-- The tokens at a position that are not white space. -/
def visible (position : Position) (own : List Char) : List Token :=
  (Token.place position (Lexeme.scan own)).filter fun token => token.kind != .whitespace

/-- White space is passed over. -/
theorem visible_blank {c : Char} (blank : Text.isBlank c = true) (position : Position) (rest : List Char) :
    visible position (c :: rest) = visible (position.step c) rest := by
  have first := Lexeme.classify_blank blank rest
  have taken : rest.take (rest.takeWhile Text.isBlank).length = rest.takeWhile Text.isBlank :=
    List.prefix_iff_eq_take.mp (List.takeWhile_prefix _) |>.symm
  rw [visible, Lexeme.scan_cons, first, taken]
  simp only [Token.place, List.filter_cons, bne_self_eq_false, Bool.false_eq_true, if_false]
  cases rest with
  | nil => rfl
  | cons d more =>
    cases white : Text.isBlank d with
    | false => simp [white, visible, after_cons]
    | true =>
      have second := Lexeme.classify_blank white more
      have takenLater : more.take (more.takeWhile Text.isBlank).length = more.takeWhile Text.isBlank :=
        List.prefix_iff_eq_take.mp (List.takeWhile_prefix _) |>.symm
      rw [visible, Lexeme.scan_cons, second, takenLater]
      simp [Token.place, white, after_cons]

theorem visible_lineChars (position : Position) (blank : Bool) (indent : Nat) (rest : List Char) :
    visible position (lineChars blank indent ++ rest) =
      visible (position.after (lineChars blank indent)) rest := by
  have all : ∀ white : List Char, (∀ c ∈ white, Text.isBlank c = true) → ∀ position : Position,
      visible position (white ++ rest) = visible (position.after white) rest := by
    intro white
    induction white with
    | nil => simp
    | cons c others step =>
      intro blank position
      rw [List.cons_append, visible_blank (blank c List.mem_cons_self), after_cons]
      exact step (fun d member => blank d (List.mem_cons_of_mem _ member)) _
  refine all _ ?_ position
  intro c member
  rcases List.mem_append.mp member with feed | spaces
  · have same : c = '\n' := by cases blank <;> simpa using feed
    subst same
    decide
  · rw [List.eq_of_mem_replicate spaces]
    decide

/-- **Reading the text of a document gives its words in their places.** -/
theorem visible_chars {doc : Doc} {after : List Char} (lexes : doc.Lexes after) (position : Position) :
    visible position (doc.chars ++ after) =
      doc.tokens position ++ visible (position.after doc.chars) after := by
  have placed : ∀ {kind : Token.Kind} {own following : List Char} (position : Position),
      Stands kind own following → visible position (own ++ following) =
        ⟨kind, String.ofList own, position.line, position.column⟩ ::
          visible (position.after own) following := by
    intro kind own following position stands
    rw [visible, stands.2]
    simp [Token.place, visible, stands.1]
  induction doc generalizing position with
  | done => simp
  | word kind own rest step =>
    rw [chars_word, List.append_assoc, placed position lexes.1, step lexes.2, after_append]
    rfl
  | list inside rest _ step =>
    have whole : (list inside rest).chars = listChars inside ++ rest.chars := by simp [listChars]
    rw [whole, List.append_assoc, placed position lexes.2.1, step lexes.2.2, after_append]
    rfl
  | space rest step =>
    rw [chars_space, List.cons_append, visible_blank (by decide), step lexes, after_cons]
    rfl
  | line blank indent rest step =>
    rw [chars_line, List.append_assoc, visible_lineChars, step lexes, after_append]
    rfl

end Doc

end DerwLang
