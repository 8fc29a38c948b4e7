/-
**The longest match.**

The first token of a text is the longest start of the text that is a single token: cut off by itself it is the same
token, and no longer start is one token. Since nothing of what follows is needed to find the end of a token, each token
may be read by itself, and a text may be read again from any of its tokens on (`longest_first`).
-/

import DerwLang.Proofs.Lexing.Position

namespace DerwLang

open Layout Lexeme

/-! ## Lexemes -/

/-- A start of a text that is one word is no longer than the first word of the text. -/
theorem IsWord.length_le {kind : Token.Kind} {c : Char} {rest own : List Char} (isWord : IsWord kind own)
    (start : own <+: c :: rest) : own.length ≤ (rest.take (classify c rest).2).length + 1 := by
  obtain ⟨d, others, rfl, -, all⟩ := isWord_iff.mp isWord
  obtain ⟨rfl, later⟩ := List.cons_prefix_cons.mp start
  have cut : rest.take others.length = others := (List.prefix_iff_eq_take.mp later).symm
  have bound := classify_take_le d rest others.length
  rw [cut] at bound
  have inside := later.length_le
  rw [List.length_cons, List.length_take]
  omega

/-- The lexemes of a text from one of them on are the lexemes of the text from there on. -/
theorem scan_split {own : List Char} {front back : List Lexeme} (split : scan own = front ++ back) :
    scan (back.flatMap Lexeme.chars) = back := by
  induction front generalizing own with
  | nil =>
    rw [List.nil_append] at split
    rw [← split, chars_scan]
  | cons lexeme front step =>
    cases own with
    | nil => simp [scan, scanAfter] at split
    | cons c rest =>
      rw [scan_cons, List.cons_append, List.cons.injEq] at split
      exact step split.2

/-! ## Tokens -/

variable {source : String} {line column : Nat}

/-- A text that is a single token is a word. -/
theorem isWord_of_single {text : String} (single : (tokenize text).length = 1) : ∃ kind, IsWord kind text.toList := by
  have whole := chars_scan text.toList
  rw [tokenize, tokenizeAt, Token.length_place, List.length_eq_one_iff] at single
  obtain ⟨lexeme, scanned⟩ := single
  rw [scanned, List.flatMap_singleton] at whole
  exact ⟨lexeme.kind, by rw [IsWord, scanned, ← whole]⟩

/-- **Read again from a token on, a text has the tokens that are left.** -/
theorem tokenizeAt_back {front back : List Token} (split : tokenizeAt source line column = front ++ back) :
    tokenizeAt (Token.text back) (Text.lineAfter line (Token.text front)) (Text.columnAfter column (Token.text front)) =
      back := by
  obtain ⟨before, after, scanned, -, late⟩ := Token.place_split split
  rw [after_eq] at late
  have left := scan_split scanned
  rw [tokenizeAt, ← late, Token.toList_text_place, left]

/-- **Read by itself, a token is the same token.** -/
theorem tokenizeAt_body {token : Token} (member : token ∈ tokenizeAt source line column) :
    tokenizeAt token.body token.line token.column = [token] := by
  obtain ⟨lexeme, among, kind, body⟩ := Token.mem_place member
  have alone := isWord_of_mem_scan among
  rw [tokenizeAt, body, String.toList_ofList, alone, Token.place, Token.place, ← body, ← kind]

/-- **The longest match.** The first token is the longest start that is one token. -/
theorem longest_first (source : String) (filled : source ≠ "") :
    ∃ first more, tokenize source = first :: more ∧
      first.body.toList <+: source.toList ∧
      tokenize first.body = [first] ∧
      (∀ start : String, start.toList <+: source.toList → (tokenize start).length = 1 →
        start.length ≤ first.body.length) ∧
      ∀ line column front token back, tokenizeAt source line column = front ++ token :: back →
        tokenizeAt token.body token.line token.column = [token] ∧
        ∀ left : String, Token.text front ++ left = source →
          tokenizeAt left token.line token.column = token :: back := by
  obtain ⟨c, rest, chars⟩ : ∃ c rest, source.toList = c :: rest :=
    List.exists_cons_of_ne_nil fun empty => filled (String.toList_eq_nil_iff.mp empty)
  have tokens : tokenize source =
      ⟨(classify c rest).1, String.ofList (c :: rest.take (classify c rest).2), 1, 1⟩ ::
        Token.place (Position.after ⟨1, 1⟩ (c :: rest.take (classify c rest).2)) (scan (rest.drop (classify c rest).2)) := by
    rw [tokenize, tokenizeAt, chars, scan_cons, Token.place]
  refine ⟨_, _, tokens, ?_, tokenizeAt_body (tokens ▸ List.mem_cons_self), ?_, ?_⟩
  · rw [chars, String.toList_ofList]
    exact List.cons_prefix_cons.mpr ⟨rfl, List.take_prefix _ _⟩
  · intro start within single
    obtain ⟨kind, isWord⟩ := isWord_of_single single
    rw [← String.length_toList, ← String.length_toList, String.toList_ofList, List.length_cons]
    exact isWord.length_le (chars ▸ within)
  · intro line column front token back split
    refine ⟨tokenizeAt_body (split ▸ List.mem_append_right _ List.mem_cons_self), fun left cut => ?_⟩
    have whole := text_tokenizeAt source line column
    rw [split, Token.text_append, ← cut] at whole
    obtain rfl : Token.text (token :: back) = left := by
      rw [← String.toList_inj, String.toList_append, String.toList_append] at whole
      exact String.toList_inj.mp (List.append_cancel_left whole)
    obtain ⟨onLine, atColumn⟩ := position_of_split split
    rw [onLine, atColumn]
    exact tokenizeAt_back split

/-- A number ends before the two points of a range: no longer start of the range is one token. -/
theorem longest_first_range : "1..9" ≠ "" ∧
    ∀ start : String, start.toList <+: "1..9".toList → (tokenize start).length = 1 → start.length ≤ 1 := by
  have filled : "1..9" ≠ "" := by decide
  refine ⟨filled, ?_⟩
  obtain ⟨first, more, tokens, -, -, longest, -⟩ := longest_first "1..9" filled
  have number : (tokenize "1..9").head? = some ⟨.literal, "1", 1, 1⟩ := by decide
  rw [tokens] at number
  obtain rfl := Option.some.inj number
  exact longest

end DerwLang
