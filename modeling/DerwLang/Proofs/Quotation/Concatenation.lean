/-
**Format strings as chains of `++`.**

A format string without holes of its own becomes a chain of quoted texts and of the expressions in its holes. The links of
the chain are cut from the format string: put one after the other they are the whole of it, no hole is left in a text, and
no bracket is left in a hole. The texts move from backticks to double quotes as they are, which is why not each of them is
a quoted text there. Main facts:

* `formatString_links`: what the links are, and which texts among them are quoted texts (`Quotable`);
* `quote_splits_text`: a quote in a format string ends the text around it.
-/

import DerwLang.Elm.FormatString
import DerwLang.Proofs.Layout.Sound

namespace DerwLang.Elm

open Lexeme

/-! ## Links -/

/-- What stands in the format string for the piece. -/
def Piece.source : Piece → List Char
  | .text chars => chars
  | .hole chars => '$' :: '\x7b' :: (chars ++ ['\x7d'])

/-- The pieces that are joined: those of the format string, or an empty text when there are none. -/
def links (body : String) : List Piece :=
  match pieces body.toList with
  | [] => [.text []]
  | found => found

/-- The characters hold a hole that is closed. -/
def HasClosedHole (chars : List Char) : Prop :=
  ∃ before inner after, chars = before ++ '$' :: '\x7b' :: (inner ++ '\x7d' :: after)

/-- A format string is the chain of its links. -/
theorem formatString_eq (body : String) :
    formatString body = String.intercalate " ++ " ((links body).map Piece.toElm) := by
  rw [formatString, links]
  cases pieces body.toList <;> rfl

/-! ## Holes -/

/-- The characters are those before the hole, the opening of the hole, and those after it. -/
theorem untilHole_eq (chars : List Char) :
    (∀ after, (untilHole chars).2 = some after → chars = (untilHole chars).1 ++ '$' :: '\x7b' :: after) ∧
      ((untilHole chars).2 = none → chars = (untilHole chars).1) := by
  fun_induction untilHole chars with
  | case1 => simp
  | case2 rest =>
    refine ⟨fun after found => ?_, fun none => absurd none (Option.some_ne_none rest)⟩
    rw [Option.some.inj found, List.nil_append]
  | case3 c rest _ next step =>
    refine ⟨fun after found => ?_, fun none => ?_⟩
    · rw [List.cons_append, ← step.1 after found]
    · rw [← step.2 none]

/-- No hole opens before the first one. -/
theorem untilHole_first (chars before after : List Char) : (untilHole chars).1 ≠ before ++ '$' :: '\x7b' :: after := by
  fun_induction untilHole chars generalizing before with
  | case1 => exact fun same => by simp at same
  | case2 => exact fun same => by simp at same
  | case3 c rest other next step =>
    intro same
    cases before with
    | cons head before => exact step before (List.cons.inj same).2
    | nil =>
      obtain ⟨rfl, opened⟩ := List.cons.inj same
      -- the bracket stands right behind the `$` in the characters too, so the hole opens there
      have ahead : ∃ more, rest = '\x7b' :: more := by
        cases found : next.2 with
        | none => exact ⟨after, ((untilHole_eq rest).2 found).trans opened⟩
        | some inner =>
          refine ⟨after ++ '$' :: '\x7b' :: inner, ((untilHole_eq rest).1 inner found).trans ?_⟩
          rw [show (untilHole rest).1 = _ from opened, List.cons_append]
      obtain ⟨more, rfl⟩ := ahead
      exact other more rfl rfl

/-- A hole ends with the first closing bracket. -/
theorem closeHole_eq {chars : List Char} :
    (∀ hole, closeHole chars = some hole → chars = hole.1 ++ '\x7d' :: hole.2 ∧ '\x7d' ∉ hole.1) ∧
      (closeHole chars = none → '\x7d' ∉ chars) := by
  fun_induction closeHole chars with
  | case1 => exact ⟨nofun, fun _ => List.not_mem_nil⟩
  | case2 c rest closes =>
    obtain rfl : c = '\x7d' := by simpa using closes
    refine ⟨fun hole found => ?_, nofun⟩
    obtain rfl := Option.some.inj found
    exact ⟨rfl, List.not_mem_nil⟩
  | case3 c rest other step =>
    have differs : '\x7d' ≠ c := fun same => other (beq_iff_eq.mpr same.symm)
    refine ⟨fun hole found => ?_, fun none => ?_⟩
    · obtain ⟨inner, closed, rfl⟩ := Option.map_eq_some_iff.mp found
      obtain ⟨same, free⟩ := step.1 inner closed
      exact ⟨by rw [List.cons_append, ← same], fun member => (List.mem_cons.mp member).elim differs free⟩
    · exact fun member => (List.mem_cons.mp member).elim differs (step.2 (Option.map_eq_none_iff.mp none))

/-! ## Pieces -/

theorem source_textPiece (chars : List Char) : (textPiece chars).flatMap Piece.source = chars := by
  rw [textPiece]
  split
  · rename_i empty
    exact (List.isEmpty_iff.mp empty).symm
  · exact List.append_nil chars

theorem mem_textPiece {chars : List Char} {piece : Piece} :
    piece ∈ textPiece chars ↔ piece = .text chars ∧ chars ≠ [] := by
  rw [textPiece]
  split
  · rename_i empty
    exact ⟨nofun, fun found => absurd (List.isEmpty_iff.mp empty) found.2⟩
  · rename_i filled
    rw [List.mem_singleton]
    exact ⟨fun same => ⟨same, fun empty => filled (List.isEmpty_iff.mpr empty)⟩, And.left⟩

/-- **The pieces put one after the other are the format string.** -/
theorem source_pieces (chars : List Char) : (pieces chars).flatMap Piece.source = chars := by
  fun_induction pieces chars with
  | case1 chars before none =>
    rw [source_textPiece]
    exact ((untilHole_eq chars).2 none).symm
  | case2 chars before after opened step =>
    conv_rhs => rw [(untilHole_eq chars).1 after opened]
    rw [List.flatMap_append, source_textPiece]
    refine congrArg (before ++ ·) ?_
    split
    · exact List.append_nil _
    · rename_i hole closed
      rw [List.flatMap_cons, step hole closed, (closeHole_eq.1 hole closed).1]
      simp [Piece.source]

/-- A piece is a text without a closed hole, and not empty, or a hole without a closing bracket. -/
def Piece.IsCut : Piece → Prop
  | .text chars => chars ≠ [] ∧ ¬ HasClosedHole chars
  | .hole chars => '\x7d' ∉ chars

theorem isCut_textPiece {chars : List Char} (first : ∀ before after, chars ≠ before ++ '$' :: '\x7b' :: after)
    {piece : Piece} (member : piece ∈ textPiece chars) : piece.IsCut := by
  obtain ⟨rfl, filled⟩ := mem_textPiece.mp member
  exact ⟨filled, fun ⟨before, _, _, same⟩ => first before _ same⟩

theorem isCut_unclosed {after : List Char} (unclosed : '\x7d' ∉ after) : (Piece.text ('$' :: '\x7b' :: after)).IsCut := by
  refine ⟨by simp, fun ⟨before, inner, rest, same⟩ => ?_⟩
  have member : '\x7d' ∈ '$' :: '\x7b' :: after := by
    rw [same]
    simp
  simp [unclosed] at member

/-- **No hole is left in a text, and no bracket in a hole.** -/
theorem isCut_pieces (chars : List Char) : ∀ piece ∈ pieces chars, piece.IsCut := by
  fun_induction pieces chars with
  | case1 chars before none => exact fun _ => isCut_textPiece (untilHole_first chars)
  | case2 chars before after opened step =>
    refine List.forall_mem_append.mpr ⟨fun _ => isCut_textPiece (untilHole_first chars), ?_⟩
    split
    · rename_i unclosed
      exact List.forall_mem_singleton.mpr (isCut_unclosed (closeHole_eq.2 unclosed))
    · rename_i hole closed
      exact List.forall_mem_cons.mpr ⟨(closeHole_eq.1 hole closed).2, step hole closed⟩

/-! ## Quoted texts -/

/-- The characters can stand between double quotes: no quote and no line end among them without a backslash before it, and
no backslash at the end without the character that it belongs to. -/
inductive Quotable : List Char → Prop
  | nil : Quotable []
  | escaped (c : Char) {rest : List Char} : Quotable rest → Quotable ('\\' :: c :: rest)
  | plain {c : Char} {rest : List Char} : c ≠ '\\' → c ≠ '"' → c ≠ '\n' → Quotable rest → Quotable (c :: rest)

/-- The quote after quotable characters closes them. -/
theorem Quotable.closed {chars : List Char} (quotable : Quotable chars) :
    quotedLength '"' (chars ++ ['"']) = (true, chars.length + 1) := by
  induction quotable with
  | nil => rfl
  | escaped c _ step =>
    rw [List.cons_append, List.cons_append, quotedLength, step]
    rfl
  | plain noBackslash noQuote noFeed _ step =>
    rw [List.cons_append, quotedLength_cons noBackslash, if_neg (by simpa using noQuote), if_neg (by simpa using noFeed),
      step]
    rfl

/-- Characters that are closed by the quote after them are quotable. -/
theorem quotable_of_closed : ∀ {chars : List Char},
    quotedLength '"' (chars ++ ['"']) = (true, chars.length + 1) → Quotable chars
  | [], _ => .nil
  | c :: rest, closed => by
    by_cases backslash : c = '\\'
    · subst backslash
      cases rest with
      | nil => cases closed
      | cons d rest =>
        rw [List.cons_append, List.cons_append, quotedLength, Prod.mk.injEq] at closed
        exact .escaped d (quotable_of_closed (Prod.ext closed.1 (Nat.add_right_cancel closed.2)))
    · rw [List.cons_append, quotedLength_cons backslash] at closed
      split at closed
      · simp at closed
      · rename_i noQuote
        split at closed
        · cases closed
        · rename_i noFeed
          rw [Prod.mk.injEq] at closed
          refine .plain backslash (by simpa using noQuote) (by simpa using noFeed) ?_
          exact quotable_of_closed (Prod.ext closed.1 (Nat.add_right_cancel closed.2))

/-- **What is a quoted text between double quotes**: the quotable characters. -/
theorem isWord_quoted {chars : List Char} : IsWord .string ('"' :: (chars ++ ['"'])) ↔ Quotable chars := by
  rw [isWord_iff]
  refine ⟨?_, fun quotable => ⟨'"', chars ++ ['"'], rfl, ?_, ?_⟩⟩
  · rintro ⟨c, rest, same, kind, all⟩
    obtain ⟨rfl, rfl⟩ := List.cons.inj same
    rw [classify_quote] at kind all
    refine quotable_of_closed (Prod.ext ?_ (Nat.le_antisymm ?_ ?_))
    · cases closed : (quotedLength '"' (chars ++ ['"'])).1 <;> simp [closed] at kind ⊢
    · simpa using quotedLength_le '"' (chars ++ ['"'])
    · simpa using all
  · simp [classify_quote, quotable.closed]
  · simp [classify_quote, quotable.closed]

/-- A source is a single token just in case its characters are a word. -/
theorem tokenize_eq_singleton {text : String} {kind : Token.Kind} :
    tokenize text = [⟨kind, text, 1, 1⟩] ↔ IsWord kind text.toList := by
  rw [tokenize, tokenizeAt, IsWord]
  refine ⟨fun single => ?_, fun isWord => by rw [isWord]; simp [Token.place]⟩
  cases found : scan text.toList with
  | nil => simp [found, Token.place] at single
  | cons lexeme more =>
    rw [found, Token.place, List.cons.injEq, Token.mk.injEq] at single
    obtain ⟨⟨rfl, own, -⟩, none⟩ := single
    cases more with
    | cons next others => cases none
    | nil => rw [← own, String.toList_ofList]

/-- **A text is a single quoted text in the chain** just in case it is quotable. -/
theorem tokenize_text {chars : List Char} :
    tokenize (Piece.text chars).toElm = [⟨.string, (Piece.text chars).toElm, 1, 1⟩] ↔ Quotable chars := by
  rw [tokenize_eq_singleton, ← isWord_quoted, Piece.toElm, Text.quoted]
  simp

/-! ## Chains -/

/-- The links are an empty text for the empty format string, and else the pieces. -/
theorem links_cases (body : String) :
    body = "" ∧ links body = [.text []] ∨ links body ≠ [] ∧ links body = pieces body.toList := by
  rw [links]
  cases found : pieces body.toList with
  | nil =>
    have source := source_pieces body.toList
    rw [found] at source
    exact .inl ⟨String.toList_eq_nil_iff.mp source.symm, rfl⟩
  | cons first rest => exact .inr ⟨List.cons_ne_nil first rest, rfl⟩

theorem links_ne_nil (body : String) : links body ≠ [] := by
  rcases links_cases body with ⟨-, alone⟩ | ⟨some, -⟩
  · rw [alone]
    exact List.cons_ne_nil _ _
  · exact some

theorem source_links (body : String) : (links body).flatMap Piece.source = body.toList := by
  rcases links_cases body with ⟨rfl, alone⟩ | ⟨-, same⟩
  · rw [alone]
    rfl
  · rw [same]
    exact source_pieces body.toList

theorem hole_mem_links {body : String} {chars : List Char} (member : .hole chars ∈ links body) : '\x7d' ∉ chars := by
  rcases links_cases body with ⟨-, alone⟩ | ⟨-, same⟩
  · simp [alone] at member
  · exact isCut_pieces body.toList _ (same ▸ member)

theorem text_mem_links {body : String} {chars : List Char} (member : .text chars ∈ links body) :
    ¬ HasClosedHole chars ∧ (chars = [] → body = "") := by
  rcases links_cases body with ⟨empty, alone⟩ | ⟨-, same⟩
  · rw [alone, List.mem_singleton, Piece.text.injEq] at member
    subst member
    exact ⟨fun ⟨_, _, _, same⟩ => by simp at same, fun _ => empty⟩
  · obtain ⟨filled, free⟩ := isCut_pieces body.toList _ (same ▸ member)
    exact ⟨free, fun empty => absurd empty filled⟩

/-- **A format string is the chain of its links.** Put one after the other the links are the whole format string, each hole
being written without the white space at its ends. There is no closing bracket in a hole and no closed hole in a text, and
a text is a single quoted text just in case it is quotable. -/
theorem formatString_links (body : String) :
    links body ≠ [] ∧ formatString body = String.intercalate " ++ " ((links body).map Piece.toElm) ∧
      (links body).flatMap Piece.source = body.toList ∧
      (∀ chars, .hole chars ∈ links body →
        '\x7d' ∉ chars ∧ (Piece.hole chars).toElm = Text.trim (String.ofList chars)) ∧
      ∀ chars, .text chars ∈ links body →
        (¬ HasClosedHole chars ∧ (chars = [] → body = "")) ∧
          (tokenize (Piece.text chars).toElm = [⟨.string, (Piece.text chars).toElm, 1, 1⟩] ↔ Quotable chars) :=
  ⟨links_ne_nil body, formatString_eq body, source_links body, fun _ member => ⟨hole_mem_links member, rfl⟩,
    fun _ member => ⟨text_mem_links member, tokenize_text⟩⟩

/-- **A quote ends the text around it.** The format string is read as one, and its only text becomes two quoted texts with a
name between them. -/
theorem quote_splits_text :
    tokenize "\x60say \"hi\"\x60" = [⟨.formatString, "\x60say \"hi\"\x60", 1, 1⟩] ∧
      links "say \"hi\"" = [.text "say \"hi\"".toList] ∧ formatString "say \"hi\"" = "\"say \"hi\"\"" ∧
      tokenize "\"say \"hi\"\"" =
        [⟨.string, "\"say \"", 1, 1⟩, ⟨.identifier, "hi", 1, 7⟩, ⟨.string, "\"\"", 1, 9⟩] := by
  decide +kernel

end DerwLang.Elm
