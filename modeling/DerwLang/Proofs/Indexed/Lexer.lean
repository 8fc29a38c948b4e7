/-
**The scanner never misses.**

A scanner that has read some characters stands at their bytes, which is where a character starts. Each loop goes on over as
many characters as the reach of the token says, so the text between two places is cut where characters meet, and the scanner
finds the tokens of its text (`tokenizeAt_ok`).
-/

import DerwLang.Indexed.Lexer
import DerwLang.Proofs.Lexing.Seam

namespace DerwLang

/-! ## Bytes -/

namespace Checked

@[simp] theorem ok_bind {α β : Type} (value : α) (goOn : α → Checked β) : ((.ok value : Checked α) >>= goOn) = goOn value := rfl

@[simp] theorem pure_eq {α : Type} (value : α) : (pure value : Checked α) = .ok value := rfl

theorem minus_one (count : Nat) : minus (count + 1) 1 = .ok count := by
  rw [minus, if_pos (Nat.le_add_left _ _), Nat.add_sub_cancel]

theorem bytes_cons (c : Char) (rest : List Char) : bytes (c :: rest) = c.utf8Size + bytes rest := rfl

theorem bytes_append (first second : List Char) : bytes (first ++ second) = bytes first + bytes second := by
  induction first with
  | nil => exact (Nat.zero_add _).symm
  | cons c first step => rw [List.cons_append, bytes_cons, step, bytes_cons, Nat.add_assoc]

/-- Behind whole characters the rest is found. -/
theorem charsFrom_append (own rest : List Char) : charsFrom (own ++ rest) (bytes own) = .ok rest := by
  induction own with
  | nil => cases rest <;> rfl
  | cons c own step =>
    have positive := c.utf8Size_pos
    obtain ⟨count, size⟩ : ∃ count, bytes (c :: own) = count + 1 := ⟨bytes (c :: own) - 1, by rw [bytes_cons]; omega⟩
    have left : count + 1 - c.utf8Size = bytes own := by
      rw [← size, bytes_cons]
      omega
    rw [size, List.cons_append, charsFrom, if_pos (by rw [← size, bytes_cons]; omega), left, step]

/-- Up to whole characters these are found. -/
theorem charsUpTo_append (own rest : List Char) : charsUpTo (own ++ rest) (bytes own) = .ok own := by
  induction own with
  | nil => cases rest <;> rfl
  | cons c own step =>
    have positive := c.utf8Size_pos
    obtain ⟨count, size⟩ : ∃ count, bytes (c :: own) = count + 1 := ⟨bytes (c :: own) - 1, by rw [bytes_cons]; omega⟩
    have left : count + 1 - c.utf8Size = bytes own := by
      rw [← size, bytes_cons]
      omega
    rw [size, List.cons_append, charsUpTo, if_pos (by rw [← size, bytes_cons]; omega), left, step]
    rfl

/-- **Characters are found between the bytes of whole characters.** -/
theorem chars_append (before own after : List Char) :
    chars (before ++ (own ++ after)) (bytes before) (bytes (before ++ own)) = .ok own := by
  have size : bytes (before ++ own) - bytes before = bytes own := by
    rw [bytes_append]
    omega
  rw [chars, if_pos (by rw [bytes_append]; omega), charsFrom_append, size]
  exact charsUpTo_append own after

end Checked

namespace Indexed

open Lexeme Layout

/-! ## Where a scanner stands -/

namespace Scanner

/-- The scanner after some characters of a text, with those that are left. -/
def at_ (done rest : List Char) (position : Position) : Scanner :=
  ⟨done ++ rest, Checked.bytes done, position⟩

/-- The scanner that has gone on by so many characters. -/
def onward (done rest : List Char) (position : Position) (count : Nat) : Scanner :=
  at_ (done ++ rest.take count) (rest.drop count) (position.after (rest.take count))

/-- A token of so many characters, and the scanner after it. -/
def taken (done rest : List Char) (position : Position) (kind : Token.Kind) (count : Nat) : Token × Scanner :=
  (⟨kind, String.ofList (rest.take count), position.line, position.column⟩, onward done rest position count)

variable {done rest : List Char} {position : Position} {c : Char}

theorem onward_zero : onward done rest position 0 = at_ done rest position := by
  simp [onward, after_nil]

theorem onward_cons (count : Nat) :
    onward (done ++ [c]) rest (position.step c) count = onward done (c :: rest) position (count + 1) := by
  simp [onward, after_cons]

theorem ahead_at : (at_ done rest position).ahead = .ok rest :=
  Checked.charsFrom_append done rest

theorem peek_at : (at_ done rest position).peek = .ok rest.head? := by
  rw [peek, ahead_at]
  rfl

theorem peekNext_at : (at_ done rest position).peekNext = .ok rest.tail.head? := by
  rw [peekNext, ahead_at]
  rfl

theorem advance_at : (at_ done (c :: rest) position).advance = .ok (onward done (c :: rest) position 1) := by
  have size : Checked.bytes (done ++ [c]) = Checked.bytes done + c.utf8Size := by
    rw [Checked.bytes_append, Checked.bytes_cons]
    rfl
  rw [advance, peek_at, ← onward_cons, onward_zero, at_, at_, size, List.append_assoc]
  rfl

theorem advance_cons :
    (at_ done (c :: rest) position).advance = .ok (at_ (done ++ [c]) rest (position.step c)) := by
  rw [advance_at, ← onward_cons, onward_zero]

theorem rounds_at : (at_ done rest position).rounds = done.length + rest.length + 1 := by
  rw [rounds, at_, List.length_append]

/-- The text that lies between two places is found. -/
theorem token_at (kind : Token.Kind) (count : Nat) :
    token kind (at_ done rest position) (onward done rest position count) = .ok (taken done rest position kind count) := by
  have own : Checked.chars (done ++ rest.take count ++ rest.drop count) (Checked.bytes done)
      (Checked.bytes (done ++ rest.take count)) = .ok (rest.take count) := by
    rw [List.append_assoc]
    exact Checked.chars_append done _ _
  simp only [token, finish, onward, at_, own]
  rfl

/-! ## Loops -/

theorem advanceBy_at {count : Nat} (fits : count ≤ rest.length) :
    advanceBy count (at_ done rest position) = .ok (onward done rest position count) := by
  induction count generalizing done rest position with
  | zero => rw [advanceBy, onward_zero]
  | succ count step =>
    cases rest with
    | nil => simp at fits
    | cons c rest =>
      rw [advanceBy, advance_cons, ← onward_cons]
      exact step (Nat.le_of_succ_le_succ fits)

theorem fixed_at (kind : Token.Kind) {count : Nat} (fits : count ≤ rest.length) :
    (at_ done rest position).fixed kind count = .ok (taken done rest position kind count) := by
  rw [fixed, advanceBy_at fits]
  exact token_at kind count

theorem advanceWhile_at (test : Char → Bool) {round : Nat} (long : rest.length < round) :
    advanceWhile test round (at_ done rest position) = .ok (onward done rest position (rest.takeWhile test).length) := by
  induction round generalizing done rest position with
  | zero => simp at long
  | succ round step =>
    rw [advanceWhile, peek_at]
    cases rest with
    | nil => exact congrArg Except.ok onward_zero.symm
    | cons c rest =>
      cases goes : test c with
      | false =>
        rw [List.takeWhile_cons_of_neg (by simp [goes]), List.length_nil, onward_zero]
        simp [goes]
      | true =>
        rw [List.takeWhile_cons_of_pos goes, List.length_cons, ← onward_cons, ← step (by simpa using long)]
        simp [goes, advance_cons]

theorem throughQuote_at (quote : Char) {round : Nat} (long : rest.length < round) :
    throughQuote quote round (at_ done rest position) =
      .ok ((quotedLength quote rest).1, onward done rest position (quotedLength quote rest).2) := by
  induction round generalizing done rest position with
  | zero => simp at long
  | succ round step =>
    rw [throughQuote, peek_at]
    cases rest with
    | nil => exact congrArg (fun ending => Except.ok (false, ending)) onward_zero.symm
    | cons c rest =>
      rw [List.length_cons] at long
      simp only [Checked.ok_bind, List.head?_cons, advance_cons]
      by_cases escape : c = '\\'
      · subst escape
        rw [if_pos (by decide), peek_at]
        cases rest with
        | nil =>
          simp only [Checked.ok_bind, List.head?_nil]
          rw [step (by simpa using long), onward_cons]
          rfl
        | cons d rest =>
          rw [List.length_cons] at long
          simp only [Checked.ok_bind, List.head?_cons, advance_cons]
          rw [step (by omega), onward_cons, onward_cons]
          rfl
      · rw [if_neg (by simpa using escape), quotedLength_cons escape]
        split
        · rw [← onward_cons, onward_zero]
          rfl
        · split
          · rw [onward_zero]
            rfl
          · rw [step (by omega), onward_cons]

theorem closingByte_eq (depth : Nat) (quote? : Option Char) (rest : List Char) (byte : Nat) :
    closingByte (depth + 1) quote? false byte rest =
      .ok ((listLength depth quote? rest).map fun count => byte + Checked.bytes (rest.take count)) := by
  have further (c : Char) (rest : List Char) (count? : Option Nat) (byte : Nat) :
      count?.map (fun count => byte + c.utf8Size + Checked.bytes (rest.take count)) =
        (count?.map (· + 1)).map fun count => byte + Checked.bytes ((c :: rest).take count) := by
    cases count? <;> simp [Checked.bytes_cons, Nat.add_assoc]
  fun_induction listLength depth quote? rest generalizing byte with
  | case1 => rfl
  | case2 depth quote c rest step =>
    have twice : (listLength depth (some quote) rest).map (· + 2) =
        ((listLength depth (some quote) rest).map (· + 1)).map (· + 1) := by
      rw [Option.map_map]
      rfl
    rw [closingByte, if_neg (by decide), if_pos (by decide), closingByte, if_pos rfl, step, twice, ← further, ← further]
  | case3 depth quote c rest followed step =>
    rw [closingByte, if_neg (by decide), ← further]
    by_cases escape : c = '\\'
    · cases rest with
      | nil => simp [escape, closingByte, listLength]
      | cons d rest => exact absurd rfl (followed d rest escape)
    · rw [if_neg (by simpa using escape)]
      split
      · rename_i closes
        rw [if_pos closes] at step
        exact step _
      · rename_i goes
        rw [if_neg goes] at step
        exact step _
  | case4 depth rest step => rw [closingByte, if_neg (by decide), if_pos (by decide), step, further]
  | case5 rest =>
    rw [closingByte, if_neg (by decide), if_neg (by decide), if_pos (by decide), Checked.minus_one]
    simp [Checked.bytes]
  | case6 depth rest step =>
    rw [closingByte, if_neg (by decide), if_neg (by decide), if_pos (by decide), Checked.minus_one]
    simp [step, further]
  | case7 depth c rest opening closing notClosing step =>
    have noOpening : (c == '[') = false := by simpa using opening
    have noClosing : (c == ']') = false := by
      cases depth <;> simp_all
    rw [closingByte, noOpening, noClosing, ← further]
    split
    · rename_i quotes
      rw [if_pos quotes] at step
      exact step _
    · rename_i plain
      rw [if_neg plain] at step
      simpa using step _

theorem throughName_at {round : Nat} (long : rest.length < round) :
    throughName round (at_ done rest position) = .ok (onward done rest position (nameLength rest)) := by
  induction round generalizing done rest position with
  | zero => simp at long
  | succ round step =>
    rw [throughName, peek_at]
    cases rest with
    | nil => exact congrArg Except.ok onward_zero.symm
    | cons c rest =>
      rw [List.length_cons] at long
      rw [nameLength]
      simp only [Checked.ok_bind, List.head?_cons, peekNext_at, List.tail_cons, advance_cons]
      split
      · rw [step (by omega), onward_cons]
      · split
        · rw [step (by omega), onward_cons]
        · rw [onward_zero]
          rfl

/-- How far a block comment reaches, ended or not. -/
theorem throughComment_at {round : Nat} (long : rest.length < round) :
    throughComment round (at_ done rest position) =
      .ok ((blockCommentLength rest).isSome, onward done rest position ((blockCommentLength rest).getD rest.length)) := by
  induction round generalizing done rest position with
  | zero => simp at long
  | succ round step =>
    rw [throughComment, peek_at]
    cases rest with
    | nil => exact congrArg (fun ending => Except.ok (false, ending)) onward_zero.symm
    | cons c rest =>
      rw [List.length_cons] at long
      simp only [Checked.ok_bind, List.head?_cons, ahead_at, advance_cons]
      split
      · rename_i closes
        obtain ⟨tail, whole⟩ := List.isPrefixOf_iff_prefix.mp closes
        rw [← whole, advanceBy_at (by simp)]
        rfl
      · rename_i goes
        have further : blockCommentLength (c :: rest) = (blockCommentLength rest).map (· + 1) := by
          rw [blockCommentLength]
          rintro tail rfl rfl
          exact goes rfl
        rw [step (by omega), onward_cons, further]
        cases blockCommentLength rest <;> rfl

theorem advanceTo_at {count round : Nat} (fits : count ≤ rest.length) (long : count < round) :
    advanceTo (Checked.bytes (done ++ rest.take count)) round (at_ done rest position) =
      .ok (onward done rest position count) := by
  induction round generalizing done rest position count with
  | zero => simp at long
  | succ round step =>
    cases count with
    | zero =>
      rw [advanceTo, if_neg (by simp [at_]), onward_zero]
    | succ count =>
      cases rest with
      | nil => simp at fits
      | cons c rest =>
        have positive := c.utf8Size_pos
        have target : done ++ (c :: rest).take (count + 1) = done ++ [c] ++ rest.take count := by simp
        rw [advanceTo, if_pos (by simp [at_, Checked.bytes_append, Checked.bytes_cons]; omega), advance_cons, target,
          Checked.ok_bind, step (by simpa using fits) (by omega), onward_cons]

/-! ## Tokens -/

/-- Going on twice is going on by both counts. -/
theorem onward_onward (first second : Nat) :
    onward (done ++ rest.take first) (rest.drop first) (position.after (rest.take first)) second =
      onward done rest position (first + second) := by
  rw [onward, onward, List.take_add, List.drop_drop, List.append_assoc, after_append]

/-- The characters between two places. -/
theorem chars_at (count : Nat) :
    Checked.chars (done ++ rest) (Checked.bytes done) (onward done rest position count).offset = .ok (rest.take count) := by
  have whole : done ++ rest = done ++ (rest.take count ++ rest.drop count) := by rw [List.take_append_drop]
  rw [whole]
  exact Checked.chars_append done _ _

theorem blanks_at (blank : Text.isBlank c = true) :
    (at_ done (c :: rest) position).blanks =
      .ok (taken done (c :: rest) position .whitespace ((rest.takeWhile Text.isBlank).length + 1)) := by
  have count : ((c :: rest).takeWhile Text.isBlank).length = (rest.takeWhile Text.isBlank).length + 1 := by
    rw [List.takeWhile_cons_of_pos blank, List.length_cons]
  rw [blanks, rounds_at, advanceWhile_at _ (by omega), count]
  exact token_at _ _

theorem comment_at (rest : List Char) :
    (at_ done ('-' :: '-' :: rest) position).comment =
      .ok (taken done ('-' :: '-' :: rest) position .comment ((rest.takeWhile (· != '\n')).length + 1 + 1)) := by
  rw [comment, rounds_at, advanceWhile_at _ (by omega)]
  exact token_at _ _

/-- A number goes on behind a point that a digit follows. -/
theorem numberLength_eq {left : List Char} (behind : rest.drop (digitsLength rest) = left) :
    numberLength rest =
      if left.head? == some '.' && left.tail.head?.any Char.isDigit then digitsLength rest + 1 + digitsLength left.tail
      else digitsLength rest := by
  rw [numberLength, behind]
  cases left with
  | nil => rfl
  | cons d decimals =>
    by_cases point : d = '.'
    · subst point
      cases decimals with
      | nil => rfl
      | cons e decimals =>
        cases digit : e.isDigit with
        | false => simp [digitsLength, digit]
        | true => simp [digitsLength, digit]
    · simp [point]

theorem number_at (digit : c.isDigit = true) :
    (at_ done (c :: rest) position).number = .ok (taken done (c :: rest) position .literal (numberLength rest + 1)) := by
  have whole : advanceWhile Char.isDigit (at_ done (c :: rest) position).rounds (at_ done (c :: rest) position) =
      .ok (onward done (c :: rest) position (digitsLength rest + 1)) := by
    rw [rounds_at, advanceWhile_at _ (by omega), List.takeWhile_cons_of_pos digit, List.length_cons, digitsLength]
  generalize behind : rest.drop (digitsLength rest) = left
  have place : onward done (c :: rest) position (digitsLength rest + 1) =
      at_ (done ++ (c :: rest).take (digitsLength rest + 1)) left (position.after ((c :: rest).take (digitsLength rest + 1))) := by
    rw [onward, List.drop_succ_cons, behind]
  rw [number, whole, Checked.ok_bind, numberLength_eq behind, place, peek_at, peekNext_at, Checked.ok_bind, Checked.ok_bind]
  split
  · rename_i goesOn
    obtain ⟨decimals, rfl⟩ : ∃ decimals, left = '.' :: decimals := by
      cases left with
      | nil => simp at goesOn
      | cons d decimals => exact ⟨decimals, by simp_all⟩
    have short : decimals.length ≤ rest.length := by
      have length := congrArg List.length behind
      rw [List.length_drop, List.length_cons] at length
      omega
    have final : onward (done ++ (c :: rest).take (digitsLength rest + 1)) ('.' :: decimals)
        (position.after ((c :: rest).take (digitsLength rest + 1))) (digitsLength decimals + 1) =
          onward done (c :: rest) position (digitsLength rest + 1 + digitsLength decimals + 1) := by
      rw [← behind, ← List.drop_succ_cons (a := c), onward_onward, Nat.add_assoc _ _ 1]
    rw [advance_cons, Checked.ok_bind, rounds_at, advanceWhile_at _ (by rw [List.length_cons]; omega), Checked.ok_bind,
      onward_cons]
    exact final ▸ token_at _ _
  · rw [← place]
    exact token_at _ _

theorem name_at : (at_ done (c :: rest) position).name =
    .ok (taken done (c :: rest) position (wordKind (String.ofList (c :: rest.take (nameLength rest)))) (nameLength rest + 1)) := by
  rw [name, advance_cons, Checked.ok_bind, rounds_at, throughName_at (by simp; omega), onward_cons, Checked.ok_bind, at_,
    chars_at, Checked.ok_bind]
  exact token_at _ _

theorem quoted_at (quote : Char) (kind : Token.Kind) :
    (at_ done (c :: rest) position).quoted quote kind =
      .ok (taken done (c :: rest) position (if (quotedLength quote rest).1 then kind else .unknown)
        ((quotedLength quote rest).2 + 1)) := by
  rw [quoted, advance_cons, Checked.ok_bind, rounds_at, throughQuote_at _ (by simp; omega), onward_cons]
  exact token_at _ _

theorem list_at : (at_ done ('[' :: rest) position).list =
    .ok (match listLength 0 none rest with
      | some count => taken done ('[' :: rest) position .literal (count + 1)
      | none => taken done ('[' :: rest) position .unknown 1) := by
  have closing : closingByte 0 none false (Checked.bytes done) ('[' :: rest) =
      .ok ((listLength 0 none rest).map fun count => Checked.bytes (done ++ ('[' :: rest).take (count + 1))) := by
    rw [closingByte, if_neg (by decide), if_pos (by decide), closingByte_eq]
    cases listLength 0 none rest <;> simp [Checked.bytes_append, Checked.bytes_cons, Nat.add_assoc]
  rw [list, ahead_at, Checked.ok_bind]
  show (closingByte 0 none false (Checked.bytes done) ('[' :: rest) >>= _) = _
  rw [closing]
  cases found : listLength 0 none rest with
  | none => exact fixed_at .unknown (by simp)
  | some count =>
    have short := listLength_le found
    simp only [Option.map_some, Checked.ok_bind]
    rw [rounds_at, advanceTo_at (by simpa using short) (by simp; omega)]
    exact token_at _ _

/-- What a sign makes with the next character, if that is one of several. -/
def paired (pairs : List (Char × Token.Kind)) (single : Token.Kind) (next? : Option Char) : Token.Kind × Nat :=
  match next?.bind fun next => pairs.find? fun pair => pair.1 == next with
  | some (_, kind) => (kind, 1)
  | none => (single, 0)

theorem paired_one {second : Char} {both single : Token.Kind} (together : sign c (some second) = (both, 1))
    (alone : ∀ next?, (next? = some second → False) → sign c next? = (single, 0)) (next? : Option Char) :
    sign c next? = paired [(second, both)] single next? := by
  cases next? with
  | none => exact alone none (by simp)
  | some next =>
    by_cases same : second = next
    · rw [← same, together]
      simp [paired]
    · rw [alone _ (by simpa using Ne.symm same)]
      simp [paired, same]

theorem paired_two {second third : Char} {both other single : Token.Kind} (together : sign c (some second) = (both, 1))
    (further : sign c (some third) = (other, 1)) (apart : second ≠ third)
    (alone : ∀ next?, (next? = some second → False) → (next? = some third → False) → sign c next? = (single, 0))
    (next? : Option Char) : sign c next? = paired [(second, both), (third, other)] single next? := by
  cases next? with
  | none => exact alone none (by simp) (by simp)
  | some next =>
    by_cases same : second = next
    · rw [← same, together]
      simp [paired]
    · by_cases last : third = next
      · rw [← last, further]
        simp [paired, apart]
      · rw [alone _ (by simpa using Ne.symm same) (by simpa using Ne.symm last)]
        simp [paired, same, last]

theorem pair_at {pairs : List (Char × Token.Kind)} {single : Token.Kind}
    (signs : ∀ next?, sign c next? = paired pairs single next?) :
    (at_ done (c :: rest) position).pair pairs single =
      .ok (taken done (c :: rest) position (sign c rest.head?).1 ((sign c rest.head?).2 + 1)) := by
  rw [pair, peekNext_at, Checked.ok_bind, List.tail_cons, signs, paired]
  cases found : rest.head?.bind fun next => pairs.find? fun pair => pair.1 == next with
  | some both =>
    cases rest with
    | nil => cases found
    | cons d rest => exact fixed_at _ (by simp)
  | none => exact fixed_at _ (by simp)

/-- A sign alone is one character. -/
theorem single_at {kind : Token.Kind} (alone : sign c rest.head? = (kind, 0)) :
    (at_ done (c :: rest) position).fixed kind 1 =
      .ok (taken done (c :: rest) position (sign c rest.head?).1 ((sign c rest.head?).2 + 1)) := by
  rw [alone]
  exact fixed_at _ (by simp)

theorem dash_at (noComment : rest.head? ≠ some '-') :
    (at_ done ('-' :: rest) position).dash =
      .ok (taken done ('-' :: rest) position (sign '-' rest.head?).1 ((sign '-' rest.head?).2 + 1)) := by
  rw [dash, peekNext_at, Checked.ok_bind, List.tail_cons]
  split
  · contradiction
  · rename_i arrow
    obtain ⟨more, rfl⟩ := List.head?_eq_some_iff.mp arrow
    exact fixed_at _ (by simp)
  · rename_i noArrow
    exact single_at (by rw [sign]; exact noArrow)

theorem multilineComment_at :
    (at_ done ('\x7b' :: '-' :: rest) position).curly =
      .ok (taken done ('\x7b' :: '-' :: rest) position (Lexeme.classify '\x7b' ('-' :: rest)).1
        ((Lexeme.classify '\x7b' ('-' :: rest)).2 + 1)) := by
  rw [curly, peekNext_at, Checked.ok_bind, if_neg (by simp), advance_cons, Checked.ok_bind, advance_cons, Checked.ok_bind,
    rounds_at, throughComment_at (by simp; omega), onward_cons, onward_cons, classify_multilineComment]
  cases blockCommentLength rest with
  | none => exact token_at _ _
  | some count => exact token_at _ _

/-- The token that an opening sign starts. -/
theorem opening_at (opening : Opening c rest) :
    (at_ done (c :: rest) position).lexeme c =
      .ok (taken done (c :: rest) position (Lexeme.classify c rest).1 ((Lexeme.classify c rest).2 + 1)) := by
  cases opening with
  | quote =>
    rw [classify_quote]
    exact quoted_at _ _
  | backquote =>
    rw [classify_backquote]
    exact quoted_at _ _
  | list =>
    rw [classify_list]
    refine Eq.trans list_at ?_
    cases listLength 0 none rest <;> rfl
  | comment more =>
    have starts : (at_ done ('-' :: '-' :: more) position).dash = (at_ done ('-' :: '-' :: more) position).comment := by
      rw [dash, peekNext_at]
      rfl
    rw [classify_comment]
    exact starts.trans (comment_at more)
  | multilineComment => exact multilineComment_at

/-- The token that a sign makes. -/
theorem sign_at (visible : Text.isBlank c = false) (noDigit : c.isDigit = false) (noName : startsName c = false)
    (noOpening : ¬ Opening c rest) :
    (at_ done (c :: rest) position).lexeme c =
      .ok (taken done (c :: rest) position (sign c rest.head?).1 ((sign c rest.head?).2 + 1)) := by
  unfold lexeme
  rw [if_neg (by simp [visible]), if_neg (by simp [noDigit]), if_neg (by simp [noName])]
  split
  case h_1 | h_2 | h_3 => exact absurd (by constructor) noOpening
  case h_4 =>
    refine dash_at fun comment => noOpening ?_
    obtain ⟨more, rfl⟩ := List.head?_eq_some_iff.mp comment
    exact .comment more
  case h_5 =>
    have noComment : rest.head? ≠ some '-' := by
      intro comment
      obtain ⟨more, rfl⟩ := List.head?_eq_some_iff.mp comment
      exact noOpening (.multilineComment more)
    rw [curly, peekNext_at, Checked.ok_bind, List.tail_cons, if_pos (by simpa using noComment)]
    exact fixed_at _ (by simp)
  case h_11 | h_12 | h_15 =>
    exact pair_at (paired_one rfl fun _ other => by
      rw [sign]
      exact other)
  case h_13 | h_17 | h_18 =>
    exact pair_at (paired_one rfl fun _ other => by
      rw [sign] <;> simp
      exact other)
  case h_14 | h_16 =>
    exact pair_at (paired_two rfl rfl (by decide) fun _ other third => by
      rw [sign]
      · exact other
      · exact third)
  case h_22 => exact single_at (by rw [sign] <;> simp_all)
  all_goals exact single_at rfl

/-- **The scanner takes the token that its next characters make.** -/
theorem lexeme_at : (at_ done (c :: rest) position).lexeme c =
    .ok (taken done (c :: rest) position (Lexeme.classify c rest).1 ((Lexeme.classify c rest).2 + 1)) := by
  cases first c rest with
  | blank blank =>
    unfold lexeme
    rw [if_pos blank, classify_blank blank]
    exact blanks_at blank
  | number visible digit =>
    unfold lexeme
    rw [if_neg (by simp [visible]), if_pos digit, classify_number visible digit]
    exact number_at digit
  | name visible noDigit starts =>
    unfold lexeme
    rw [if_neg (by simp [visible]), if_neg (by simp [noDigit]), if_pos starts, classify_name visible noDigit starts]
    exact name_at
  | opening opening => exact opening_at opening
  | sign visible noDigit noName noOpening =>
    rw [classify_sign visible noDigit noName noOpening]
    exact sign_at visible noDigit noName noOpening

/-- The scanner finds the tokens of what is left. -/
theorem tokens_at {round : Nat} (long : rest.length < round) :
    tokens round (at_ done rest position) = .ok (Token.place position (scan rest)) := by
  induction round generalizing done rest position with
  | zero => simp at long
  | succ round step =>
    rw [tokens, peek_at, Checked.ok_bind]
    cases rest with
    | nil => rfl
    | cons c rest =>
      rw [List.length_cons] at long
      simp only [List.head?_cons, lexeme_at, Checked.ok_bind, taken, onward, List.take_succ_cons, List.drop_succ_cons]
      rw [step (by rw [List.length_drop]; omega), scan_cons, Token.place]
      rfl

end Scanner

/-- **The scanner finds the tokens of every text, and each of its accesses is in range.** -/
theorem tokenizeAt_ok (source : String) (line column : Nat) :
    Indexed.tokenizeAt source line column = .ok (DerwLang.tokenizeAt source line column) :=
  @Scanner.tokens_at [] _ _ _ (Nat.lt_succ_self _)

end Indexed

end DerwLang
