/-
**Texts one below the other.**

A line feed ends every token but those that it may stand in, quoted texts, lists and block comments, and these are over where
they are over (`classify_seam`); a space does as well, except that a comment to the end of its line goes on. So when each token
of a text is known, a text below it is read as if it stood alone, further down: no token reaches from one into the other, except
that blanks at the end of the first run into the line feed (`visible_tokenize_below`).
-/

import DerwLang.Proofs.Lexing.First
import DerwLang.Proofs.Lines.Lowered

namespace DerwLang

namespace Lexeme

variable {c : Char} {rest : List Char}

/-! ## No token takes more than there is -/

theorem nameLength_le (own : List Char) : nameLength own ≤ own.length := by
  fun_induction nameLength own <;> simp_all

theorem digitsLength_le (own : List Char) : digitsLength own ≤ own.length :=
  (List.takeWhile_prefix _).length_le

theorem numberLength_le (own : List Char) : numberLength own ≤ own.length := by
  have whole := digitsLength_le own
  unfold numberLength
  simp only
  split
  · rename_i decimals split_
    have length := congrArg List.length split_
    have later := digitsLength_le decimals
    rw [List.length_drop, List.length_cons] at length
    split <;> omega
  · exact whole

theorem classify_le (c : Char) (rest : List Char) : (classify c rest).2 ≤ rest.length := by
  cases first c rest with
  | blank blank =>
    rw [classify_blank blank]
    exact (List.takeWhile_prefix _).length_le
  | number visible digit =>
    rw [classify_number visible digit]
    exact numberLength_le rest
  | name visible noDigit starts =>
    rw [classify_name visible noDigit starts]
    exact nameLength_le rest
  | opening opening =>
    cases opening with
    | quote =>
      rw [classify_quote]
      exact quotedLength_le _ _
    | backquote =>
      rw [classify_backquote]
      exact quotedLength_le _ _
    | list =>
      rw [classify_list]
      cases found : listLength 0 none rest with
      | none => exact Nat.zero_le _
      | some length => exact listLength_le found
    | comment more =>
      rw [classify_comment]
      exact Nat.succ_le_succ (List.takeWhile_prefix _).length_le
    | multilineComment more =>
      rw [classify_multilineComment]
      cases found : blockCommentLength more with
      | none => exact Nat.le_refl _
      | some length => exact Nat.succ_le_succ (blockCommentLength_le found)
  | sign visible noDigit noName noOpening =>
    rw [classify_sign visible noDigit noName noOpening]
    cases rest with
    | nil =>
      rw [List.head?_nil, length_sign_none]
      exact Nat.zero_le _
    | cons d rest => exact (length_sign_le _ _).trans (Nat.le_add_left _ _)

/-! ## How far tokens reach before a space or a line feed -/

/-- A space or a line feed, which end every token but those that they may stand in. -/
inductive Seam : Char → Prop
  | space : Seam ' '
  | feed : Seam '\n'

theorem takeWhile_seam {test : Char → Bool} {gap : Char} (stops : test gap = false) (own after : List Char) :
    (own ++ gap :: after).takeWhile test = own.takeWhile test := by
  rw [List.takeWhile_append, List.takeWhile_cons_of_neg (by simp [stops])]
  split
  · rename_i whole
    rw [List.append_nil, (List.takeWhile_prefix test).eq_of_length whole]
  · rfl

section

variable {gap : Char} (seam : Seam gap)

include seam

theorem nameLength_seam (own after : List Char) : nameLength (own ++ gap :: after) = nameLength own := by
  induction own with
  | nil => cases seam <;> rfl
  | cons c rest step =>
    have next : (rest ++ gap :: after).head?.any startsName = rest.head?.any startsName := by
      cases rest with
      | nil => cases seam <;> rfl
      | cons d more => rfl
    rw [List.cons_append, nameLength, nameLength, step, next]

theorem digitsLength_seam (own after : List Char) : digitsLength (own ++ gap :: after) = digitsLength own := by
  rw [digitsLength, takeWhile_seam (by cases seam <;> rfl), digitsLength]

theorem numberLength_seam (own after : List Char) : numberLength (own ++ gap :: after) = numberLength own := by
  rw [numberLength, numberLength, digitsLength_seam seam, List.drop_append_of_le_length (digitsLength_le own)]
  cases own.drop (digitsLength own) with
  | nil => cases seam <;> rfl
  | cons c rest =>
    by_cases point : c = '.'
    · subst point
      simp only [List.cons_append, digitsLength_seam seam]
    · simp [point]

theorem sign_seam (c : Char) : sign c (some gap) = sign c none := by
  generalize atEnd : (none : Option Char) = next
  cases seam <;> fun_cases sign c next <;> simp_all [sign]

theorem Opening.of_seam {after : List Char} (opening : Opening c (rest ++ gap :: after)) : Opening c rest := by
  have noMinus : gap ≠ '-' := by cases seam <;> decide
  generalize whole : rest ++ gap :: after = all at opening
  cases opening with
  | quote => exact .quote rest
  | backquote => exact .backquote rest
  | list => exact .list rest
  | comment =>
    cases rest with
    | nil => exact absurd (List.cons.inj whole).1 noMinus
    | cons d rest =>
      obtain ⟨rfl, -⟩ := List.cons.inj whole
      exact .comment rest
  | multilineComment =>
    cases rest with
    | nil => exact absurd (List.cons.inj whole).1 noMinus
    | cons d rest =>
      obtain ⟨rfl, -⟩ := List.cons.inj whole
      exact .multilineComment rest

/-- **A token that is known ends in front of a line feed as it does at the end of the text**, and so in front of a space if it
is no comment to the end of its line. -/
theorem classify_seam (visible : Text.isBlank c = false) (known : (classify c rest).1 ≠ .unknown)
    (comment : (classify c rest).1 = .comment → gap = '\n') (after : List Char) :
    classify c (rest ++ gap :: after) = classify c rest := by
  cases first c rest with
  | blank blank => simp [visible] at blank
  | number visible digit => simp only [classify_number visible digit, numberLength_seam seam]
  | name visible noDigit starts =>
    rw [classify_name visible noDigit starts, classify_name visible noDigit starts, nameLength_seam seam,
      List.take_append_of_le_length (nameLength_le rest)]
  | opening opening =>
    cases opening with
    | quote =>
      cases found : quotedLength '"' rest with
      | mk closed length =>
        cases closed with
        | false => simp [classify_quote, found] at known
        | true => simp only [classify_quote, found, quotedLength_append found]
    | backquote =>
      cases found : quotedLength '\x60' rest with
      | mk closed length =>
        cases closed with
        | false => simp [classify_backquote, found] at known
        | true => simp only [classify_backquote, found, quotedLength_append found]
    | list =>
      cases found : listLength 0 none rest with
      | none => simp [classify_list, found] at known
      | some length => rw [classify_list, classify_list, found, listLength_append found]
    | comment more =>
      obtain rfl := comment (by rw [classify_comment])
      have sameLine : (more ++ '\n' :: after).takeWhile (fun x => x != '\n') = more.takeWhile (fun x => x != '\n') :=
        takeWhile_seam rfl more after
      simp only [List.cons_append, classify_comment, sameLine]
    | multilineComment more =>
      cases found : blockCommentLength more with
      | none => simp [classify_multilineComment, found] at known
      | some length =>
        rw [List.cons_append, classify_multilineComment, classify_multilineComment, found, blockCommentLength_append found]
        rfl
  | sign visible noDigit noName noOpening =>
    rw [classify_sign visible noDigit noName fun opening => noOpening (opening.of_seam seam),
      classify_sign visible noDigit noName noOpening]
    cases rest with
    | nil => exact sign_seam seam c
    | cons d rest => rfl

end

/-- **No token reaches over a line feed into the text below**, except that blanks at the end of the first text run into it. -/
theorem scan_seam {first second : List Char} (known : ∀ lexeme ∈ scan first, lexeme.kind ≠ .unknown)
    (starts : ∀ c ∈ second.head?, Text.isBlank c = false) :
    ∃ front blanks, scan (first ++ '\n' :: second) = front ++ ⟨.whitespace, blanks ++ ['\n']⟩ :: scan second ∧
      (scan first = front ∧ blanks = [] ∨ scan first = front ++ [⟨.whitespace, blanks⟩]) := by
  have feed : Text.isBlank '\n' = true := by decide
  have none_ : second.takeWhile Text.isBlank = [] := by
    cases second with
    | nil => rfl
    | cons c rest => exact List.takeWhile_cons_of_neg (by simp [starts c rfl])
  induction size : first.length using Nat.strongRecOn generalizing first with
  | _ _ step =>
    cases first with
    | nil =>
      refine ⟨[], [], ?_, .inl ⟨rfl, rfl⟩⟩
      rw [List.nil_append, scan_cons, classify_blank feed, none_]
      rfl
    | cons c rest =>
      have fits := classify_le c rest
      have shorter : (rest.drop (classify c rest).2).length < (c :: rest).length := by
        rw [List.length_drop, List.length_cons]
        omega
      rw [scan_cons, List.forall_mem_cons] at known
      obtain ⟨front, blanks, both, alone⟩ := step _ (size ▸ shorter) known.2 rfl
      have apart (same : classify c (rest ++ '\n' :: second) = classify c rest) :
          scan (c :: rest ++ '\n' :: second) = ⟨(classify c rest).1, c :: rest.take (classify c rest).2⟩ :: front ++
            ⟨.whitespace, blanks ++ ['\n']⟩ :: scan second := by
        rw [List.cons_append, scan_cons, same, List.take_append_of_le_length fits, List.drop_append_of_le_length fits, both]
        rfl
      have first_ : scan (c :: rest) = ⟨(classify c rest).1, c :: rest.take (classify c rest).2⟩ :: front ∧ blanks = [] ∨
          scan (c :: rest) = ⟨(classify c rest).1, c :: rest.take (classify c rest).2⟩ :: front ++
            [⟨.whitespace, blanks⟩] := by
        rw [scan_cons]
        rcases alone with ⟨same, empty⟩ | same
        · exact .inl ⟨by rw [same], empty⟩
        · exact .inr (by rw [same]; rfl)
      cases blank : Text.isBlank c with
      | false => exact ⟨_, blanks, apart (classify_seam .feed blank known.1 (fun _ => rfl) second), first_⟩
      | true =>
        by_cases all : (rest.takeWhile Text.isBlank).length = rest.length
        · have joined : (rest ++ '\n' :: second).takeWhile Text.isBlank = rest ++ ['\n'] := by
            rw [List.takeWhile_append, if_pos all, List.takeWhile_cons_of_pos feed, none_]
          have split_ : rest ++ '\n' :: second = rest ++ ['\n'] ++ second := by simp
          refine ⟨[], c :: rest, ?_, .inr ?_⟩
          · rw [List.cons_append, scan_cons, classify_blank blank, joined, split_, List.take_left, List.drop_left]
            rfl
          · rw [scan_cons, classify_blank blank, all, List.take_length, List.drop_length]
            rfl
        · refine ⟨_, blanks, apart ?_, first_⟩
          rw [classify_blank blank, classify_blank blank, List.takeWhile_append, if_neg all]

end Lexeme

/-! ## Tokens of both texts -/

open Lexeme Layout

namespace Token

/-- The tokens that are no blanks. -/
def visible (tokens : List Token) : List Token :=
  tokens.filter fun token => token.kind != .whitespace

theorem visible_append (first second : List Token) : visible (first ++ second) = visible first ++ visible second :=
  List.filter_append _ _

theorem visible_lowered (count : Nat) (tokens : List Token) :
    visible (tokens.map (lowered count)) = (visible tokens).map (lowered count) :=
  List.filter_map

theorem place_append (position : Position) (front back : List Lexeme) :
    place position (front ++ back) = place position front ++ place (position.after (front.flatMap Lexeme.chars)) back := by
  induction front generalizing position with
  | nil => rfl
  | cons lexeme more step =>
    rw [List.cons_append, place, place, step, List.flatMap_cons, after_append, List.cons_append]

/-- Each lexeme is one of the tokens. -/
theorem exists_mem_place (position : Position) {lexemes : List Lexeme} {lexeme : Lexeme} (member : lexeme ∈ lexemes) :
    ∃ token ∈ place position lexemes, token.kind = lexeme.kind := by
  obtain ⟨front, back, rfl⟩ := List.append_of_mem member
  rw [place_append, place]
  exact ⟨_, List.mem_append_right _ List.mem_cons_self, rfl⟩

end Token

/-- **A text below another one is read as if it stood alone, further down.** -/
theorem visible_tokenize_below {first second : String} (known : ∀ token ∈ tokenize first, token.kind ≠ .unknown)
    (starts : ∀ c ∈ second.toList.head?, Text.isBlank c = false) :
    Token.visible (tokenize (first ++ "\n" ++ second)) =
      Token.visible (tokenize first) ++
        (Token.visible (tokenize second)).map (Token.lowered (first.toList.count '\n' + 1)) := by
  have recognised : ∀ lexeme ∈ scan first.toList, lexeme.kind ≠ .unknown := by
    intro lexeme member
    obtain ⟨token, among, kind⟩ := Token.exists_mem_place ⟨1, 1⟩ member
    exact kind ▸ known token among
  obtain ⟨front, blanks, both, alone⟩ := scan_seam recognised starts
  have characters : first.toList = front.flatMap Lexeme.chars ++ blanks := by
    rw [← chars_scan first.toList]
    rcases alone with ⟨same, rfl⟩ | same <;> simp [same]
  have seen : Token.visible (tokenize first) = Token.visible (Token.place ⟨1, 1⟩ front) := by
    rw [tokenize, tokenizeAt]
    rcases alone with ⟨same, -⟩ | same
    · rw [same]
    · rw [same, Token.place_append, Token.visible_append]
      exact List.append_nil _
  have later : ((⟨1, 1⟩ : Position).after (front.flatMap Lexeme.chars)).after (blanks ++ ['\n']) =
      ⟨1 + (first.toList.count '\n' + 1), 1⟩ := by
    rw [← after_append, ← List.append_assoc, ← characters, after_append, after_eq]
    rfl
  have whole : (first ++ "\n" ++ second).toList = first.toList ++ '\n' :: second.toList := by simp
  have below : (tokenize second).map (Token.lowered (first.toList.count '\n' + 1)) =
      Token.place ⟨1 + (first.toList.count '\n' + 1), 1⟩ (scan second.toList) :=
    (tokenizeAt_lowered second 1 1 _).symm
  rw [seen, ← Token.visible_lowered, below, tokenize, tokenizeAt, whole, both, Token.place_append, Token.visible_append,
    Token.place, later]
  rfl

end DerwLang
