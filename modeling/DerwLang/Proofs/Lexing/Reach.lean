/-
**How far words reach.**

A name, a number, a quoted text, a list and a comment each end where their own characters say so. Two things follow for
all of them, and a third for those that have a closing sign:

* cut off there, a word reaches as far as before (`nameLength_take` and its like);
* cut off earlier, it reaches no further (`nameLength_take_le` and its like);
* once closed, it does not mind what follows (`quotedLength_append` and its like).
-/

import DerwLang.Token.Lexer
import Mathlib.Data.List.TakeWhile

namespace DerwLang.Lexeme

/-! ## Names -/

/-- A name is cut off by itself. -/
theorem nameLength_take (own : List Char) : nameLength (own.take (nameLength own)) = nameLength own := by
  induction own with
  | nil => rfl
  | cons c rest step =>
    rw [nameLength]
    split
    · rename_i goes
      rw [List.take_succ_cons, nameLength, if_pos goes, step]
    · rename_i stops
      split
      · rename_i dot
        have later : (rest.take (nameLength rest)).head?.any startsName = true := by
          cases rest with
          | nil => simp at dot
          | cons d more =>
            have starts : startsName d = true := by simpa using (Bool.and_eq_true _ _ ▸ dot).2
            have goes : (Text.isAlphanumeric d || d == '_') = true := by
              rw [startsName, Bool.or_eq_true] at starts
              exact (Bool.or_eq_true _ _).mpr (starts.imp_left Text.isAlphanumeric_of_isAlphabetic)
            rw [nameLength, if_pos goes]
            simpa using starts
        rw [List.take_succ_cons, nameLength, if_neg stops, later, step]
        simp_all
      · rfl

/-- A name that is cut off reaches no further. -/
theorem nameLength_take_le (own : List Char) (count : Nat) : nameLength (own.take count) ≤ nameLength own := by
  induction own generalizing count with
  | nil => simp
  | cons c rest step =>
    cases count with
    | zero => exact Nat.zero_le _
    | succ count =>
      rw [List.take_succ_cons, nameLength, nameLength]
      have dotted : ((rest.take count).head?.any startsName) = true → (rest.head?.any startsName) = true := by
        cases count with
        | zero => simp
        | succ count => cases rest <;> simp
      split
      · exact Nat.succ_le_succ (step count)
      · split
        · rename_i dot
          rw [Bool.and_eq_true] at dot
          rw [if_pos (by simp [dot.1, dotted dot.2])]
          exact Nat.succ_le_succ (step count)
        · exact Nat.zero_le _

/-! ## Numbers -/

/-- What starts with no digit has no digits ahead. -/
theorem digitsLength_append {digits after : List Char} (all : ∀ c ∈ digits, c.isDigit = true)
    (ends : after.head?.any Char.isDigit = false) : digitsLength (digits ++ after) = digits.length := by
  induction digits with
  | nil =>
    cases after with
    | nil => rfl
    | cons c more => simp_all [digitsLength]
  | cons c rest step =>
    have later := step fun d member => all d (List.mem_cons_of_mem _ member)
    simp only [digitsLength, List.cons_append, List.takeWhile_cons, all c List.mem_cons_self, if_true,
      List.length_cons] at later ⊢
    omega

/-- The digits ahead and what follows them. -/
theorem digits_split (own : List Char) : ∃ digits after, own = digits ++ after ∧
    digitsLength own = digits.length ∧ (∀ c ∈ digits, c.isDigit = true) ∧
      after.head?.any Char.isDigit = false := by
  refine ⟨own.takeWhile Char.isDigit, own.dropWhile Char.isDigit, (List.takeWhile_append_dropWhile).symm, rfl,
    fun c member => List.all_eq_true.mp List.all_takeWhile c member, ?_⟩
  cases rest : own.dropWhile Char.isDigit with
  | nil => rfl
  | cons c more =>
    have := List.head?_dropWhile_not Char.isDigit own
    simp_all

theorem digitsLength_take (own : List Char) : own.take (digitsLength own) = own.takeWhile Char.isDigit :=
  (List.prefix_iff_eq_take.mp (List.takeWhile_prefix Char.isDigit)).symm

/-- A number is cut off by itself. -/
theorem numberLength_take (own : List Char) : numberLength (own.take (numberLength own)) = numberLength own := by
  obtain ⟨digits, others, rfl, length, areDigits, stop⟩ := digits_split own
  have dropped : (digits ++ others).drop digits.length = others := by simp
  have alone : numberLength digits = digits.length := by
    have whole : digitsLength (digits ++ []) = digits.length := digitsLength_append areDigits rfl
    rw [List.append_nil] at whole
    simp [numberLength, whole]
  have short : numberLength (digits ++ others) = digits.length →
      numberLength ((digits ++ others).take (numberLength (digits ++ others))) = numberLength (digits ++ others) := by
    intro same
    rw [same, List.take_left, alone]
  have whole := numberLength.eq_1 (digits ++ others)
  simp only [length, dropped] at whole
  split at whole
  · rename_i decimals
    split at whole
    · exact short whole
    · rename_i count counted
      have cut : (digits ++ '.' :: decimals).take (digits.length + 1 + (count + 1)) =
          digits ++ '.' :: decimals.takeWhile Char.isDigit := by
        rw [← digitsLength_take, counted, List.take_append, List.take_of_length_le (by omega),
          show digits.length + 1 + (count + 1) - digits.length = count + 1 + 1 by omega, List.take_succ_cons]
      have ahead : digitsLength (digits ++ '.' :: decimals.takeWhile Char.isDigit) = digits.length :=
        digitsLength_append areDigits rfl
      have behind : digitsLength (decimals.takeWhile Char.isDigit) = count + 1 := by
        rw [digitsLength, List.takeWhile_idem]
        exact counted
      rw [whole, cut, numberLength, ahead, List.drop_left]
      simp only [behind]
  · exact short whole

theorem digitsLength_take_le (own : List Char) (count : Nat) : digitsLength (own.take count) ≤ digitsLength own := by
  rw [digitsLength, digitsLength, ← List.take_takeWhile]
  exact List.length_take_le' _ _

theorem digitsLength_le_numberLength (own : List Char) : digitsLength own ≤ numberLength own := by
  simp only [numberLength]
  repeat' split
  all_goals omega

/-- A number that is cut off reaches no further. -/
theorem numberLength_take_le (own : List Char) (count : Nat) : numberLength (own.take count) ≤ numberLength own := by
  have whole : digitsLength (own.take count) ≤ numberLength own :=
    (digitsLength_take_le own count).trans (digitsLength_le_numberLength own)
  obtain ⟨digits, others, cut, length, areDigits, -⟩ := digits_split (own.take count)
  have left : (own.take count).drop digits.length = others := by rw [cut, List.drop_left]
  rw [length] at whole
  rw [numberLength, length]
  simp only [left]
  split
  · rename_i decimals
    split
    · exact whole
    · rename_i further counted
      -- the point and its digits are there in the whole text as well
      obtain ⟨rest, same⟩ : ∃ rest, own = digits ++ '.' :: (decimals ++ rest) :=
        ⟨own.drop count, by rw [← List.cons_append, ← List.append_assoc, ← cut, List.take_append_drop]⟩
      have digitsAhead : digitsLength own = digits.length := by
        rw [same]
        exact digitsLength_append areDigits rfl
      have point : own.drop digits.length = '.' :: (decimals ++ rest) := by rw [same, List.drop_left]
      have more := digitsLength_take_le (decimals ++ rest) decimals.length
      rw [List.take_left, counted] at more
      rw [numberLength, digitsAhead]
      simp only [point]
      split <;> omega
  · exact whole

/-! ## Quoted texts -/

attribute [local simp] quotedLength listLength

theorem ne_backslash {c : Char} {rest : List Char} (alone : c = '\\' → rest = [] → False)
    (followed : ∀ head more, c = '\\' → rest = head :: more → False) : c ≠ '\\' := by
  intro equal
  cases rest with
  | nil => exact alone equal rfl
  | cons head more => exact followed head more equal rfl

/-- A character that is no backslash, within quotes. -/
theorem quotedLength_cons {quote c : Char} (plain : c ≠ '\\') (rest : List Char) :
    quotedLength quote (c :: rest) =
      if c == quote then (true, 1)
      else if c == '\n' && quote == '"' then (false, 0)
      else ((quotedLength quote rest).1, (quotedLength quote rest).2 + 1) := by
  rw [quotedLength]
  · exact fun equal _ => plain equal
  · exact fun _ _ equal _ => plain equal

/-- What follows a closed quote does not matter. -/
theorem quotedLength_append {quote : Char} {own after : List Char} {length : Nat}
    (closed : quotedLength quote own = (true, length)) : quotedLength quote (own ++ after) = (true, length) := by
  fun_induction quotedLength quote own generalizing length with
  | case1 => simp at closed
  | case2 => simp at closed
  | case3 c rest inner count found step =>
    simp only [Prod.mk.injEq] at closed
    obtain ⟨rfl, rfl⟩ := closed
    simp [quotedLength, step found]
  | case4 c rest alone followed quoted =>
    rw [List.cons_append, quotedLength_cons (ne_backslash alone followed), if_pos quoted]
    exact closed
  | case5 => simp at closed
  | case6 c rest alone followed unquoted sameLine inner count found step =>
    simp only [Prod.mk.injEq] at closed
    obtain ⟨rfl, rfl⟩ := closed
    rw [List.cons_append, quotedLength_cons (ne_backslash alone followed), if_neg unquoted, if_neg sameLine,
      step found]

/-- A quoted text is cut off by itself. -/
theorem quotedLength_take (quote : Char) (own : List Char) :
    quotedLength quote (own.take (quotedLength quote own).2) = quotedLength quote own := by
  fun_induction quotedLength quote own with
  | case1 => rfl
  | case2 => rfl
  | case3 c rest closed length found step =>
    rw [found] at step
    simp [step]
  | case4 c rest alone followed quoted =>
    rw [List.take_succ_cons, quotedLength_cons (ne_backslash alone followed), if_pos quoted]
  | case5 => rfl
  | case6 c rest alone followed unquoted sameLine closed length found step =>
    rw [found] at step
    rw [List.take_succ_cons, quotedLength_cons (ne_backslash alone followed), if_neg unquoted, if_neg sameLine, step]

/-- A quoted text that is cut off reaches no further. -/
theorem quotedLength_take_le (quote : Char) (own : List Char) (count : Nat) :
    (quotedLength quote (own.take count)).2 ≤ (quotedLength quote own).2 := by
  fun_induction quotedLength quote own generalizing count with
  | case1 => simp
  | case2 => cases count <;> simp
  | case3 c rest closed length found step =>
    rw [found] at step
    match count with
    | 0 => exact Nat.zero_le _
    | 1 => simp
    | count + 2 => simpa using step count
  | case4 c rest alone followed quoted =>
    cases count with
    | zero => exact Nat.zero_le _
    | succ count => rw [List.take_succ_cons, quotedLength_cons (ne_backslash alone followed), if_pos quoted]
  | case5 c rest alone followed unquoted newLine =>
    cases count with
    | zero => exact Nat.zero_le _
    | succ count =>
      rw [List.take_succ_cons, quotedLength_cons (ne_backslash alone followed), if_neg unquoted, if_pos newLine]
  | case6 c rest alone followed unquoted sameLine closed length found step =>
    rw [found] at step
    cases count with
    | zero => exact Nat.zero_le _
    | succ count =>
      rw [List.take_succ_cons, quotedLength_cons (ne_backslash alone followed), if_neg unquoted, if_neg sameLine]
      exact Nat.succ_le_succ (step count)

/-- A quote never takes more characters than there are. -/
theorem quotedLength_le (quote : Char) (own : List Char) : (quotedLength quote own).2 ≤ own.length := by
  fun_induction quotedLength quote own <;> simp_all

/-! ## Lists -/

/-- What follows a closed list does not matter. -/
theorem listLength_append {depth : Nat} {quote : Option Char} {own after : List Char} {length : Nat}
    (closed : listLength depth quote own = some length) :
    listLength depth quote (own ++ after) = some length := by
  fun_induction listLength depth quote own generalizing length with
  | case1 => simp at closed
  | case2 depth quote c rest step =>
    obtain ⟨count, found, rfl⟩ := Option.map_eq_some_iff.mp closed
    simp [listLength, step found]
  | case3 depth quote c rest followed step =>
    obtain ⟨count, found, rfl⟩ := Option.map_eq_some_iff.mp closed
    have plain : c ≠ '\\' := by
      refine ne_backslash (fun _ none_ => ?_) followed
      simp [none_, listLength] at found
    rw [List.cons_append, listLength, step found]
    · rfl
    · exact fun _ _ equal _ => plain equal
  | case4 depth rest step =>
    obtain ⟨count, found, rfl⟩ := Option.map_eq_some_iff.mp closed
    simp [listLength, step found]
  | case5 => simpa [listLength] using closed
  | case6 depth rest step =>
    obtain ⟨count, found, rfl⟩ := Option.map_eq_some_iff.mp closed
    simp [listLength, step found]
  | case7 depth c rest opening closing further step =>
    obtain ⟨count, found, rfl⟩ := Option.map_eq_some_iff.mp closed
    rw [List.cons_append, listLength, step found]
    · rfl
    · exact opening
    · exact closing
    · exact further

/-- A list is cut off by itself. -/
theorem listLength_take {depth : Nat} {quote : Option Char} {own : List Char} {length : Nat}
    (closed : listLength depth quote own = some length) : listLength depth quote (own.take length) = some length := by
  fun_induction listLength depth quote own generalizing length with
  | case1 => simp at closed
  | case2 depth quote c rest step =>
    obtain ⟨count, found, rfl⟩ := Option.map_eq_some_iff.mp closed
    simp [listLength, step found]
  | case3 depth quote c rest followed step =>
    obtain ⟨count, found, rfl⟩ := Option.map_eq_some_iff.mp closed
    have plain : c ≠ '\\' := by
      refine ne_backslash (fun _ none_ => ?_) followed
      simp [none_, listLength] at found
    rw [List.take_succ_cons, listLength, step found]
    · rfl
    · exact fun _ _ equal _ => plain equal
  | case4 depth rest step =>
    obtain ⟨count, found, rfl⟩ := Option.map_eq_some_iff.mp closed
    simp [listLength, step found]
  | case5 =>
    obtain rfl := Option.some.inj closed
    simp [listLength]
  | case6 depth rest step =>
    obtain ⟨count, found, rfl⟩ := Option.map_eq_some_iff.mp closed
    simp [listLength, step found]
  | case7 depth c rest opening closing further step =>
    obtain ⟨count, found, rfl⟩ := Option.map_eq_some_iff.mp closed
    rw [List.take_succ_cons, listLength, step found]
    · rfl
    · exact opening
    · exact closing
    · exact further

/-- A list that is cut off is closed where it was, or not closed. -/
theorem listLength_of_take {depth : Nat} {quote : Option Char} {own : List Char} {count length : Nat}
    (closed : listLength depth quote (own.take count) = some length) : listLength depth quote own = some length := by
  rw [← List.take_append_drop count own]
  exact listLength_append closed

/-- A list never takes more characters than there are. -/
theorem listLength_le {depth : Nat} {quote : Option Char} {own : List Char} {length : Nat}
    (closed : listLength depth quote own = some length) : length ≤ own.length := by
  fun_induction listLength depth quote own generalizing length with
  | case1 => simp at closed
  | case5 => simp_all
  | _ =>
    rename_i step
    obtain ⟨count, found, rfl⟩ := Option.map_eq_some_iff.mp closed
    have := step found
    simp only [List.length_cons]
    omega

/-! ## Block comments -/

theorem blockCommentLength_append {own after : List Char} {length : Nat} (closed : blockCommentLength own = some length) :
    blockCommentLength (own ++ after) = some length := by
  fun_induction blockCommentLength own generalizing length with
  | case1 => simp at closed
  | case2 => simpa [blockCommentLength] using closed
  | case3 c rest other step =>
    obtain ⟨inner, found, rfl⟩ := Option.map_eq_some_iff.mp closed
    cases rest with
    | nil => simp [blockCommentLength] at found
    | cons next more =>
      rw [List.cons_append, blockCommentLength.eq_3 _ _ (fun tail isMinus closes => ?_), step found]
      · rfl
      · exact other more isMinus (by rw [(List.cons.inj closes).1])

theorem blockCommentLength_le {own : List Char} {length : Nat} (closed : blockCommentLength own = some length) :
    length ≤ own.length := by
  fun_induction blockCommentLength own generalizing length with
  | case1 => simp at closed
  | case2 => simp at closed; simp [← closed]
  | case3 c rest other step =>
    obtain ⟨inner, found, rfl⟩ := Option.map_eq_some_iff.mp closed
    exact Nat.succ_le_succ (step found)

/-- A block comment is cut off by itself. -/
theorem blockCommentLength_take {own : List Char} {length : Nat} (closed : blockCommentLength own = some length) :
    blockCommentLength (own.take length) = some length := by
  fun_induction blockCommentLength own generalizing length with
  | case1 => simp at closed
  | case2 rest =>
    obtain rfl := Option.some.inj closed
    simp [blockCommentLength]
  | case3 c rest other step =>
    obtain ⟨inner, found, rfl⟩ := Option.map_eq_some_iff.mp closed
    rw [List.take_succ_cons, blockCommentLength.eq_3 _ _ (fun tail isMinus closes => ?_), step found]
    · rfl
    · cases rest with
      | nil => simp at closes
      | cons d more =>
        cases inner with
        | zero => simp at closes
        | succ count => exact other more isMinus (by rw [(List.cons.inj closes).1])

theorem blockCommentLength_of_take {own : List Char} {count length : Nat}
    (closed : blockCommentLength (own.take count) = some length) : blockCommentLength own = some length := by
  rw [← List.take_append_drop count own]
  exact blockCommentLength_append closed

/-- A block comment is not cut off before its end. -/
theorem lt_of_blockCommentLength_take {own : List Char} {count length : Nat} (closed : blockCommentLength own = some length)
    (cut : blockCommentLength (own.take count) = none) : count < length := by
  by_contra beyond
  have whole : blockCommentLength (own.take length ++ (own.take count).drop length) = some length :=
    blockCommentLength_append (blockCommentLength_take closed)
  rw [← List.take_append_drop length (own.take count), List.take_take, Nat.min_eq_left (Nat.le_of_not_lt beyond), whole]
    at cut
  simp at cut

end DerwLang.Lexeme
