/-
**Cutting where lines start.**

Branches and declarations are told apart by layout: each starts on a line of its own at a certain column. All other lines of
a branch or a declaration hang: they stand farther to the right (`Doc.Hanging`), with two exceptions. The closing bracket
of an alias stands at the column itself, and so does a definition after its signature. Main facts:

* `holds_starts`: cutting where a line starts gives the branches;
* `holds_blocks`: so it gives the declarations, each of which goes on to its end (`Continues`).
-/

import DerwLang.Proofs.Reading.Pieces

namespace DerwLang

open Layout Grammar

/-! ## Hanging lines -/

/-- All further lines stand farther to the right. -/
def Doc.Hanging : Doc → Prop
  | .done => True
  | .word _ _ rest => rest.Hanging
  | .list _ rest => rest.Hanging
  | .space rest => rest.Hanging
  | .line _ indent rest => 0 < indent ∧ rest.Hanging

@[simp]
theorem Doc.hanging_append {first second : Doc} : (first ++ second).Hanging ↔ first.Hanging ∧ second.Hanging := by
  induction first <;> simp_all [Doc.Hanging, and_assoc]

/-- What is moved in hangs. -/
theorem Doc.hanging_shift (doc : Doc) (levels : Nat) : (doc.shift (levels + 1)).Hanging := by
  induction doc with
  | line blank indent rest step =>
    rw [shift_line]
    exact ⟨by omega, step⟩
  | done => trivial
  | word _ _ _ step => exact step
  | list _ _ _ step => exact step
  | space _ step => exact step

/-- What is on one line has no further lines, and so it hangs. -/
theorem Doc.Flat.hanging {doc : Doc} (flat : doc.Flat) : doc.Hanging := by
  rw [← flat.shift 1]
  exact doc.hanging_shift 0

theorem Doc.hanging_joined {glue : Doc → Doc → Doc}
    (glued : ∀ first second : Doc, first.Hanging → second.Hanging → (glue first second).Hanging) {docs : List Doc}
    (hanging : ∀ doc ∈ docs, doc.Hanging) : (Doc.joined glue docs).Hanging := by
  induction docs with
  | nil => trivial
  | cons doc rest step =>
    rw [List.forall_mem_cons] at hanging
    cases rest with
    | nil => exact hanging.1
    | cons next more => exact glued _ _ hanging.1 (step hanging.2)

/-- No token after the first one starts a line at or left of the column. -/
def Quiet (column : Nat) : Token → List Token → Prop
  | _, [] => True
  | previous, token :: rest => (token.startsLineAfter previous = true → column < token.column) ∧ Quiet column token rest

/-- The words of a document that hangs are quiet. -/
theorem quiet_tokens {doc : Doc} (hanging : doc.Hanging) {level : Nat} {position : Position} {previous : Token}
    (right : previous.endLine < position.line → 4 * level + 1 < position.column) :
    Quiet (4 * level + 1) previous ((doc.shift level).tokens position) := by
  have placed : ∀ (kind : Token.Kind) (own : List Char) (position : Position),
      (Token.mk kind (String.ofList own) position.line position.column).endLine = (position.after own).line := by
    intro kind own position
    rw [Token.endLine, line_after, String.toList_ofList]
  induction doc generalizing position previous with
  | done => trivial
  | word kind own rest step =>
    refine ⟨fun starts => right (by simpa [Token.startsLineAfter] using starts), ?_⟩
    refine step hanging fun before => ?_
    rw [placed] at before
    omega
  | list inside rest _ step =>
    refine ⟨fun starts => right (by simpa [Token.startsLineAfter] using starts), ?_⟩
    refine step hanging fun before => ?_
    rw [placed] at before
    omega
  | space rest step =>
    refine step hanging fun before => ?_
    have below : previous.endLine < position.line := by simpa [Position.step] using before
    have column := right below
    simp only [Position.step, beq_iff_eq]
    rw [if_neg (by decide)]
    simp only
    omega
  | line blank indent rest step =>
    refine step hanging.2 fun _ => ?_
    have positive : 0 < indent := hanging.1
    rw [Doc.after_lineChars]
    simp only
    omega

/-- Every word ends on a line of the document. -/
theorem endLine_le {doc : Doc} {position : Position} {token : Token} (member : token ∈ doc.tokens position) :
    token.endLine ≤ (position.after doc.chars).line := by
  have placed : ∀ (kind : Token.Kind) (own rest : List Char) (position : Position),
      (Token.mk kind (String.ofList own) position.line position.column).endLine ≤ ((position.after own).after rest).line := by
    intro kind own rest position
    rw [Token.endLine, line_after, line_after, String.toList_ofList]
    exact Nat.le_add_right _ _
  induction doc generalizing position with
  | done => simp [Doc.tokens] at member
  | word kind own rest step =>
    rw [Doc.chars_word, after_append]
    rcases List.mem_cons.mp member with rfl | later
    · exact placed kind own rest.chars position
    · exact step later
  | list inside rest _ step =>
    have whole : (Doc.list inside rest).chars = Doc.listChars inside ++ rest.chars := by simp [Doc.listChars]
    rw [whole, after_append]
    rcases List.mem_cons.mp member with rfl | later
    · exact placed .literal (Doc.listChars inside) rest.chars position
    · exact step later
  | space rest step => exact step member
  | line blank indent rest step =>
    rw [Doc.chars_line, after_append]
    exact step member

/-! ## One below the other -/

/-- Documents below each other, each of them on a line of its own. -/
def Doc.stacked : Doc → List (Bool × Doc) → Doc
  | first, [] => first
  | first, (blank, next) :: rest => first.under blank 0 (Doc.stacked next rest)

theorem Doc.joined_blankLines (first : Doc) (rest : List Doc) :
    Doc.joined Doc.blankLines (first :: rest) = Doc.stacked first (rest.map fun doc => (true, doc)) := by
  induction rest generalizing first with
  | nil => rfl
  | cons next more step => rw [Doc.joined, step]; rfl

/-- The words of stacked documents: those of the first, and those of the others from the start of a later line. -/
theorem tokens_stacked (first : Doc) (blank : Bool) (next : Doc) (rest : List (Bool × Doc)) (level : Nat)
    (position : Position) :
    ∃ place : Position, place.column = 4 * level + 1 ∧ (position.after (first.shift level).chars).line < place.line ∧
      ((Doc.stacked first ((blank, next) :: rest)).shift level).tokens position =
        (first.shift level).tokens position ++ ((Doc.stacked next rest).shift level).tokens place := by
  refine ⟨(position.after (first.shift level).chars).after (Doc.lineChars blank (0 + 4 * level)), ?_, ?_, ?_⟩
  · rw [Doc.after_lineChars, Nat.zero_add]
  · rw [Doc.after_lineChars]
    cases blank <;> simp
  · rw [Doc.stacked, Doc.shift_under, Doc.under, Doc.tokens_append]
    rfl

/-! ## Branches -/

/-- A document whose further lines hang, and which starts with a word. -/
structure Doc.Hangs (doc : Doc) : Prop where
  starts : Starts doc.chars
  hanging : doc.Hanging

theorem splitStarts_end {column : Nat} {previous : Token} {rest : List Token} (quiet : Quiet column previous rest)
    (before : Nat) : Window.splitStarts column before previous rest = [⟨before, previous :: rest⟩] := by
  induction rest generalizing previous with
  | nil => rfl
  | cons token more step =>
    have stays : ¬ (token.startsLineAfter previous && token.column ≤ column) = true := by
      simp only [Bool.and_eq_true, decide_eq_true_eq, not_and, Nat.not_le]
      exact quiet.1
    rw [Window.splitStarts, if_neg stays, step quiet.2]
    rfl

theorem splitStarts_next {column : Nat} {previous next : Token} {rest : List Token} (quiet : Quiet column previous rest)
    (below : ∀ token ∈ previous :: rest, token.endLine < next.line) (left : next.column ≤ column) (before : Nat)
    (more : List Token) :
    ∃ last, Window.splitStarts column before previous (rest ++ next :: more) =
      ⟨before, previous :: rest⟩ :: Window.splitStarts column last next more := by
  induction rest generalizing previous with
  | nil =>
    have starts : (next.startsLineAfter previous && next.column ≤ column) = true := by
      simpa [Token.startsLineAfter, left] using below previous List.mem_cons_self
    exact ⟨previous.line, by rw [List.nil_append, Window.splitStarts, if_pos starts]⟩
  | cons token others step =>
    have stays : ¬ (token.startsLineAfter previous && token.column ≤ column) = true := by
      simp only [Bool.and_eq_true, decide_eq_true_eq, not_and, Nat.not_le]
      exact quiet.1
    obtain ⟨last, same⟩ := step quiet.2 fun other member => below other (List.mem_cons_of_mem _ member)
    refine ⟨last, ?_⟩
    rw [List.cons_append, Window.splitStarts, if_neg stays, same]
    rfl

theorem indented_of_column {level : Nat} {position : Position} (column : position.column = 4 * level + 1) :
    Indented level position := by
  unfold Indented
  omega

/-- What hangs is quiet after its first word. -/
theorem Doc.Hangs.quiet {doc : Doc} (hangs : doc.Hangs) (level : Nat) (position : Position) :
    ∃ first rest, (doc.shift level).tokens position = first :: rest ∧ first.line = position.line ∧
      first.column = position.column ∧ Quiet (4 * level + 1) first rest := by
  obtain ⟨first, rest, tokens, line, column⟩ := tokens_of_starts hangs.starts level position
  have quiet := @quiet_tokens doc hangs.hanging level position ⟨.comma, "", position.line, 0⟩
    (fun before => absurd before (by simp [Token.endLine]))
  rw [tokens] at quiet
  exact ⟨first, rest, tokens, line, column, quiet.2⟩

/-- **Cutting where a line starts gives the documents that are stacked.** -/
theorem holds_starts {first : Doc} {rest : List (Bool × Doc)} (hangs : first.Hangs) (others : ∀ other ∈ rest, other.2.Hangs)
    {level : Nat} {position : Position} (column : position.column = 4 * level + 1) :
    ∃ token tokens, ((Doc.stacked first rest).shift level).tokens position = token :: tokens ∧
      token.line = position.line ∧ token.column = position.column ∧
      ∀ before, List.Forall₂ (Holds level) (Window.splitStarts (4 * level + 1) before token tokens)
        (first :: rest.map Prod.snd) := by
  have held : ∀ before, Holds level ⟨before, (first.shift level).tokens position⟩ first :=
    fun before => ⟨position, before, indented_of_column column, rfl⟩
  obtain ⟨token, tokens, same, line, at_, quiet⟩ := hangs.quiet level position
  induction rest generalizing first position token tokens with
  | nil =>
    refine ⟨token, tokens, same, line, at_, fun before => ?_⟩
    rw [splitStarts_end quiet, ← same]
    exact .cons (held before) .nil
  | cons next more step =>
    rw [List.forall_mem_cons] at others
    obtain ⟨place, left, below, whole⟩ := tokens_stacked first next.1 next.2 more level position
    obtain ⟨start, later, sameLater, lineLater, atLater, quietLater⟩ := others.1.quiet level place
    obtain ⟨start', later', sameLater', lineLater', atLater', heldLater⟩ := step others.1 others.2 left
      (fun before => ⟨place, before, indented_of_column left, rfl⟩) start later sameLater lineLater atLater quietLater
    refine ⟨token, tokens ++ start' :: later', by rw [whole, same, sameLater']; rfl, line, at_, fun before => ?_⟩
    have ends : ∀ other ∈ token :: tokens, other.endLine < start'.line := by
      intro other member
      rw [← same] at member
      exact Nat.lt_of_le_of_lt (endLine_le member) (lineLater' ▸ below)
    obtain ⟨last, cut⟩ := splitStarts_next quiet ends (Nat.le_of_eq (atLater'.trans left)) before later'
    rw [cut, ← same]
    exact .cons (held before) (heldLater last)

/-! ## Declarations -/

/-- The declaration goes on to the end of the tokens. -/
def Continues (column : Nat) : Opened → Token → List Token → Prop
  | _, _, [] => True
  | opened, previous, token :: rest =>
    startsBlock column opened previous token = false ∧ Continues column (opened.push token) token rest

theorem Quiet.continues {column : Nat} {previous : Token} {tokens : List Token} (quiet : Quiet column previous tokens)
    (opened : Opened) : Continues column opened previous tokens := by
  induction tokens generalizing previous opened with
  | nil => trivial
  | cons token rest step =>
    refine ⟨?_, step quiet.2 _⟩
    have stays : (token.startsLineAfter previous && token.column ≤ column) = false := by
      rw [Bool.and_eq_false_imp, decide_eq_false_iff_not, Nat.not_le]
      exact quiet.1
    rw [startsBlock, stays, Bool.false_and]

theorem blocksFrom_end {column : Nat} {opened : Opened} {previous : Token} {rest : List Token}
    (continues : Continues column opened previous rest) (before : Nat) :
    blocksFrom column opened before previous rest = [⟨before, previous :: rest⟩] := by
  induction rest generalizing previous opened with
  | nil => rfl
  | cons token more step =>
    rw [blocksFrom, if_neg (by simp [continues.1]), step continues.2]
    rfl

/-- A token that starts a declaration: no closing bracket and no bar. -/
def opensBlock (token : Token) : Bool :=
  !(token.kind == .closeCurly || token.kind == .closeBracket || token.kind == .pipe)

/-- The name of a definition announces no other one once its sign has been met. -/
theorem blocksFrom_next {column : Nat} {opened : Opened} {previous next : Token} {rest : List Token}
    (continues : Continues column opened previous rest)
    (assigned : opened.head.kind = .identifier → opened.assigned = true ∨ ∃ token ∈ rest, token.kind = .assign)
    (below : ∀ token ∈ previous :: rest, token.endLine < next.line) (left : next.column ≤ column)
    (opens : opensBlock next = true) (before : Nat) (more : List Token) :
    ∃ last, blocksFrom column opened before previous (rest ++ next :: more) =
      ⟨before, previous :: rest⟩ :: blocksFrom column (.ofHead next) last next more := by
  induction rest generalizing previous opened with
  | nil =>
    have silent : opened.announces next = false := by
      cases name : (opened.head.kind == .identifier) with
      | false => simp [Opened.announces, name]
      | true =>
        have done := assigned (by simpa using name)
        simp only [List.not_mem_nil, false_and, exists_false, or_false] at done
        simp [Opened.announces, done]
    have starts : startsBlock column opened previous next = true := by
      have after : next.startsLineAfter previous = true := by
        simpa [Token.startsLineAfter] using below previous List.mem_cons_self
      have opener : (!(next.kind == .closeCurly || next.kind == .closeBracket || next.kind == .pipe)) = true := opens
      simp only [Bool.not_eq_true', Bool.or_eq_false_iff] at opener
      simp [startsBlock, after, left, silent, opener]
    exact ⟨previous.line, by rw [List.nil_append, blocksFrom, if_pos starts]⟩
  | cons token others step =>
    have later : (opened.push token).head.kind = .identifier →
        (opened.push token).assigned = true ∨ ∃ other ∈ others, other.kind = .assign := by
      intro name
      rcases assigned name with already | ⟨other, member, same⟩
      · exact .inl (by simp [Opened.push, already])
      · rcases List.mem_cons.mp member with rfl | member
        · exact .inl (by simp [Opened.push, same])
        · exact .inr ⟨other, member, same⟩
    obtain ⟨last, same⟩ := step continues.2 later fun other member => below other (List.mem_cons_of_mem _ member)
    refine ⟨last, ?_⟩
    rw [List.cons_append, blocksFrom, if_neg (by simp [continues.1]), same]
    rfl

/-- Wherever the words of the document start a line, they make one declaration. -/
def Doc.Declares (doc : Doc) : Prop :=
  ∀ (level : Nat) (position : Position), position.column = 4 * level + 1 →
    ∃ first rest, (doc.shift level).tokens position = first :: rest ∧ first.line = position.line ∧
      first.column = position.column ∧ opensBlock first = true ∧
      (first.kind = .identifier → ∃ token ∈ rest, token.kind = .assign) ∧
      Continues (4 * level + 1) (.ofHead first) first rest

/-- What hangs makes one declaration. -/
theorem Doc.Hangs.declares {doc : Doc} (hangs : doc.Hangs)
    (opens : ∀ level position, ∀ first ∈ ((doc.shift level).tokens position).head?, opensBlock first = true ∧
      (first.kind = .identifier → ∃ token ∈ ((doc.shift level).tokens position).tail, token.kind = .assign)) :
    doc.Declares := by
  intro level position _
  obtain ⟨first, rest, tokens, line, column, quiet⟩ := hangs.quiet level position
  obtain ⟨opener, assigned⟩ := opens level position first (by rw [tokens]; rfl)
  rw [tokens] at assigned
  exact ⟨first, rest, tokens, line, column, opener, assigned, quiet.continues _⟩

/-- **Cutting at declarations gives the documents that are stacked.** -/
theorem holds_blocks {first : Doc} {rest : List (Bool × Doc)} (declares : first.Declares)
    (others : ∀ other ∈ rest, other.2.Declares) {level : Nat} {position : Position} (column : position.column = 4 * level + 1)
    (before : Nat) :
    List.Forall₂ (Holds level) (splitBlocks ⟨before, ((Doc.stacked first rest).shift level).tokens position⟩)
      (first :: rest.map Prod.snd) := by
  have all : ∃ token tokens, ((Doc.stacked first rest).shift level).tokens position = token :: tokens ∧
      token.line = position.line ∧ token.column = position.column ∧ opensBlock token = true ∧
      ∀ before, List.Forall₂ (Holds level) (blocksFrom (4 * level + 1) (.ofHead token) before token tokens)
        (first :: rest.map Prod.snd) := by
    have held : ∀ before, Holds level ⟨before, (first.shift level).tokens position⟩ first :=
      fun before => ⟨position, before, indented_of_column column, rfl⟩
    obtain ⟨token, tokens, same, line, at_, opens, assigned, continues⟩ := declares level position column
    induction rest generalizing first position token tokens with
    | nil =>
      refine ⟨token, tokens, same, line, at_, opens, fun before => ?_⟩
      rw [blocksFrom_end continues, ← same]
      exact .cons (held before) .nil
    | cons next more step =>
      rw [List.forall_mem_cons] at others
      obtain ⟨place, left, below, whole⟩ := tokens_stacked first next.1 next.2 more level position
      obtain ⟨start, later, sameLater, lineLater, atLater, opensLater, assignedLater, continuesLater⟩ :=
        others.1 level place left
      obtain ⟨start', later', sameLater', lineLater', atLater', opensLater', heldLater⟩ := step others.1 others.2 left
        (fun before => ⟨place, before, indented_of_column left, rfl⟩) start later sameLater lineLater atLater opensLater
        assignedLater continuesLater
      refine ⟨token, tokens ++ start' :: later', by rw [whole, same, sameLater']; rfl, line, at_, opens, fun before => ?_⟩
      have ends : ∀ other ∈ token :: tokens, other.endLine < start'.line := by
        intro other member
        rw [← same] at member
        exact Nat.lt_of_le_of_lt (endLine_le member) (lineLater' ▸ below)
      obtain ⟨last, cut⟩ := blocksFrom_next continues (fun name => .inr (assigned name)) ends
        (Nat.le_of_eq (atLater'.trans left)) opensLater' before later'
      rw [cut, ← same]
      exact .cons (held before) (heldLater last)
  obtain ⟨token, tokens, same, -, at_, -, cut⟩ := all
  rw [splitBlocks, same]
  simp only
  rw [at_, column]
  exact cut before

end DerwLang
