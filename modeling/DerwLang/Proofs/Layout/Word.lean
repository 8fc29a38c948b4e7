/-
**Words and what follows them.**

A word stands before a text where reading both finds the word first. Names, numbers and quoted texts are told apart from what
follows whenever that does not go on with a name or a number (`stands_of_isWord`); for signs a space, a line feed or a
closing bracket is enough (`stands_sign`).
-/

import DerwLang.Proofs.Layout.Doc
import Mathlib.Tactic.CasesM

namespace DerwLang

open Layout Lexeme

/-- No name and no number goes on with the characters. -/
def endsWord : List Char → Bool
  | [] => true
  | c :: rest =>
    !(Text.isAlphanumeric c || c == '_') && !(c == '.' && rest.head?.any fun d => startsName d || d.isDigit)

/-- The first lexeme stands where it takes the same characters. -/
theorem stands_of_classify {kind : Token.Kind} {c : Char} {rest after : List Char}
    (visible : kind ≠ .whitespace) (same : classify c (rest ++ after) = (kind, rest.length)) :
    Doc.Stands kind (c :: rest) after := by
  refine ⟨visible, ?_⟩
  rw [List.cons_append, scan_cons, same]
  simp

/-! ## Names and numbers -/

theorem isDigit_alphanumeric {c : Char} (digit : c.isDigit = true) : Text.isAlphanumeric c = true := by
  have small : c.toNat < 128 := by
    simp only [Char.isDigit, Bool.and_eq_true, decide_eq_true_eq] at digit
    have := digit.2
    exact Nat.lt_of_le_of_lt this (by decide)
  simp [Text.isAlphanumeric, small, Char.isAlphanum, digit]

/-- A name ends where nothing goes on with it. -/
theorem nameLength_append {rest after : List Char} (all : rest.length ≤ nameLength rest)
    (ends : endsWord after = true) : nameLength (rest ++ after) = rest.length := by
  induction rest with
  | nil =>
    cases after with
    | nil => rfl
    | cons c more =>
      simp only [endsWord, Bool.and_eq_true, Bool.not_eq_true'] at ends
      have noDot : (c == '.' && more.head?.any startsName) = false := by
        cases more with
        | nil => simp
        | cons d others =>
          have dot := ends.2
          simp only [List.head?_cons, Option.any_some] at dot ⊢
          cases first : c == '.' with
          | false => rfl
          | true => simp_all
      simp [nameLength, ends.1, noDot]
  | cons c rest step =>
    rw [List.cons_append, nameLength]
    rw [nameLength] at all
    split at all
    · rename_i goes
      rw [if_pos goes, step (by simpa using all), List.length_cons]
    · rename_i stops
      split at all
      · rename_i dot
        cases rest with
        | nil => simp at dot
        | cons d more =>
          rw [if_neg stops, List.cons_append, if_pos (by simpa using dot), ← List.cons_append,
            step (by simpa using all)]
          rfl
      · simp at all

/-- A number ends where nothing goes on with it. -/
theorem numberLength_append {rest after : List Char} (all : rest.length ≤ numberLength rest)
    (ends : endsWord after = true) : numberLength (rest ++ after) = rest.length := by
  have noDigit : after.head?.any Char.isDigit = false := by
    cases after with
    | nil => rfl
    | cons c more =>
      simp only [List.head?_cons, Option.any_some]
      cases digit : c.isDigit with
      | false => rfl
      | true => simp [endsWord, isDigit_alphanumeric digit] at ends
  obtain ⟨digits, others, rfl, length, areDigits, stop⟩ := digits_split rest
  have dropped : (digits ++ others).drop digits.length = others := by simp
  simp only [numberLength, length, dropped] at all
  cases others with
  | nil =>
    have whole : digitsLength (digits ++ after) = digits.length := digitsLength_append areDigits noDigit
    have left : (digits ++ after).drop digits.length = after := by simp
    simp only [List.append_nil, numberLength, whole, left]
    cases after with
    | nil => rfl
    | cons c more =>
      by_cases dot : c = '.'
      · subst dot
        have none_ : digitsLength more = 0 := by
          cases more with
          | nil => rfl
          | cons d others =>
            cases digit : d.isDigit with
            | false => simp [digitsLength, digit]
            | true => simp [endsWord, digit] at ends
        simp [none_]
      · split
        · rename_i equal
          simp only [List.cons.injEq] at equal
          exact absurd equal.1 dot
        · rfl
  | cons c more =>
    split at all
    · rename_i decimals equal
      simp only [List.cons.injEq] at equal
      obtain ⟨rfl, rfl⟩ := equal
      simp only [List.length_append, List.length_cons] at all
      split at all
      · omega
      · rename_i count counted
        obtain ⟨decimals, left, rfl, decimalsLength, areDecimals, -⟩ := digits_split more
        have none_ : left = [] := by
          rw [← List.length_eq_zero_iff]
          simp only [List.length_append] at all
          omega
        subst none_
        have wholeLength : digitsLength (digits ++ '.' :: (decimals ++ after)) = digits.length :=
          digitsLength_append areDigits rfl
        have laterLength : digitsLength (decimals ++ after) = decimals.length :=
          digitsLength_append areDecimals noDigit
        have whole : (digits ++ '.' :: (decimals ++ after)).drop digits.length = '.' :: (decimals ++ after) := by
          simp
        rw [List.append_nil] at decimalsLength ⊢
        rw [List.append_assoc, List.cons_append, numberLength, wholeLength]
        simp only [whole, laterLength]
        rw [List.append_nil, decimalsLength] at counted
        rw [counted]
        simp only [List.length_append, List.length_cons]
        omega
    · simp only [List.length_append, List.length_cons] at all
      omega

/-! ## Standing -/

/-- **Names, numbers, quoted texts and lists stand where nothing goes on with them.** -/
theorem stands_of_isWord {kind : Token.Kind} {own after : List Char} (isWord : IsWord kind own)
    (isOpen : isOpenKind kind = true) (ends : endsWord after = true) : Doc.Stands kind own after := by
  obtain ⟨c, rest, rfl, same, all⟩ := isWord_iff.mp isWord
  have visible : kind ≠ .whitespace := by
    rintro rfl
    simp [isOpenKind] at isOpen
  rw [← same] at isOpen
  have notBlank := not_blank_of_isOpenKind isOpen
  refine stands_of_classify visible ?_
  by_cases digit : c.isDigit = true
  · rw [classify_number notBlank digit] at same all
    rw [classify_number notBlank digit, numberLength_append all ends, ← same]
  by_cases name : startsName c = true
  · have shape := classify_name notBlank (Bool.eq_false_iff.mpr digit) name
    rw [shape] at same all
    have whole := nameLength_append all ends
    rw [shape, whole, ← same]
    simp [List.take_of_length_le all]
  rcases start_of_isOpenKind isOpen with starts | starts | rfl | rfl | rfl
  · exact absurd starts digit
  · exact absurd starts name
  · rw [classify_quote] at same all isOpen
    have closed : (quotedLength '"' rest).1 = true := by
      cases found : (quotedLength '"' rest).1 <;> simp_all [isOpenKind]
    have length : quotedLength '"' rest = (true, rest.length) :=
      Prod.ext closed (Nat.le_antisymm (quotedLength_le _ _) all)
    rw [classify_quote, quotedLength_append length, ← same, closed]
  · rw [classify_backquote] at same all isOpen
    have closed : (quotedLength '\x60' rest).1 = true := by
      cases found : (quotedLength '\x60' rest).1 <;> simp_all [isOpenKind]
    have length : quotedLength '\x60' rest = (true, rest.length) :=
      Prod.ext closed (Nat.le_antisymm (quotedLength_le _ _) all)
    rw [classify_backquote, quotedLength_append length, ← same, closed]
  · rw [classify_list] at same all isOpen
    cases found : listLength 0 none rest with
    | none => simp [found, isOpenKind] at isOpen
    | some length =>
      simp only [found, Option.map_some, Option.getD_some] at same all
      have whole : length = rest.length := Nat.le_antisymm (listLength_le found) all
      rw [classify_list, listLength_append found, ← same, whole]
      rfl

/-! ## The characters of words -/

/-- The square bracket that closes an open list is looked for past the characters. -/
def Passes (own : List Char) : Prop :=
  ∀ depth after, listLength depth none (own ++ after) = (listLength depth none after).map (· + own.length)

/-- A character that the search for the closing bracket takes no note of. -/
def isInert (c : Char) : Bool :=
  c != '[' && c != ']' && c != '"' && c != '\x60'

theorem listLength_inert {c : Char} (inert : isInert c = true) (depth : Nat) (rest : List Char) :
    listLength depth none (c :: rest) = (listLength depth none rest).map (· + 1) := by
  simp only [isInert, Bool.and_eq_true, bne_iff_ne] at inert
  obtain ⟨⟨⟨notOpen, notClose⟩, notQuote⟩, notBackquote⟩ := inert
  rw [listLength]
  · simp [notQuote, notBackquote]
  · exact notOpen
  · exact fun _ => notClose
  · exact fun _ _ => notClose

theorem passes_nil : Passes [] := fun _ _ => by simp

theorem Passes.append {first second : List Char} (one : Passes first) (two : Passes second) :
    Passes (first ++ second) := by
  intro depth after
  rw [List.append_assoc, one, two, Option.map_map]
  congr 1
  funext length
  simp only [Function.comp_apply, List.length_append]
  omega

theorem passes_of_inert {own : List Char} (inert : own.all isInert = true) : Passes own := by
  intro depth after
  induction own with
  | nil => simp
  | cons c rest step =>
    simp only [List.all_cons, Bool.and_eq_true] at inert
    rw [List.cons_append, listLength_inert inert.1, step inert.2, Option.map_map]
    rfl

/-- Within a list, a quoted text is passed as a whole. -/
theorem listLength_quoted {quote : Char} {own : List Char} (closed : quotedLength quote own = (true, own.length))
    (depth : Nat) (after : List Char) :
    listLength depth (some quote) (own ++ after) = (listLength depth none after).map (· + own.length) := by
  fun_induction quotedLength quote own with
  | case1 => simp at closed
  | case2 => simp at closed
  | case3 c rest inner count found step =>
    simp only [List.length_cons, Prod.mk.injEq] at closed
    obtain ⟨rfl, length⟩ := closed
    obtain rfl : count = rest.length := by omega
    simp only [List.cons_append, listLength, step found, Option.map_map, List.length_cons]
    rfl
  | case4 c rest alone followed quoted =>
    simp only [List.length_cons, Prod.mk.injEq, true_and] at closed
    obtain rfl : rest = [] := List.length_eq_zero_iff.mp (by omega)
    have plain := ne_backslash alone followed
    rw [List.singleton_append, listLength, if_pos quoted]
    · rfl
    · exact fun _ _ equal _ => plain equal
  | case5 => simp at closed
  | case6 c rest alone followed unquoted sameLine inner count found step =>
    simp only [List.length_cons, Prod.mk.injEq] at closed
    obtain ⟨rfl, length⟩ := closed
    obtain rfl : count = rest.length := by omega
    have plain := ne_backslash alone followed
    rw [List.cons_append, listLength, if_neg unquoted, step found, Option.map_map]
    · rfl
    · exact fun _ _ equal _ => plain equal

/-- Within a list, a list is passed as a whole. -/
theorem listLength_nested {depth : Nat} {quote : Option Char} {own : List Char}
    (closed : listLength depth quote own = some own.length) (below : Nat) (after : List Char) :
    listLength (depth + below + 1) quote (own ++ after) =
      (listLength below none after).map (· + own.length) := by
  fun_induction listLength depth quote own with
  | case1 => simp at closed
  | case2 depth quote c rest step =>
    obtain ⟨count, found, length⟩ := Option.map_eq_some_iff.mp closed
    obtain rfl : count = rest.length := by simpa using length
    simp only [List.cons_append, listLength, step found, Option.map_map, List.length_cons]
    rfl
  | case3 depth quote c rest followed step =>
    obtain ⟨count, found, length⟩ := Option.map_eq_some_iff.mp closed
    obtain rfl : count = rest.length := by simpa using length
    have plain : c ≠ '\\' := by
      refine ne_backslash (fun _ none_ => ?_) followed
      simp [none_, listLength] at found
    rw [List.cons_append, listLength, step found, Option.map_map]
    · rfl
    · exact fun _ _ equal _ => plain equal
  | case4 depth rest step =>
    obtain ⟨count, found, length⟩ := Option.map_eq_some_iff.mp closed
    obtain rfl : count = rest.length := by simpa using length
    have deeper : depth + 1 + below + 1 = depth + below + 1 + 1 := by omega
    rw [deeper] at step
    simp only [List.cons_append, listLength, step found, Option.map_map, List.length_cons]
    rfl
  | case5 tail =>
    obtain rfl : tail = [] := by simpa using closed
    have outer : 0 + below + 1 = below + 1 := by omega
    rw [outer, List.singleton_append, listLength]
    rfl
  | case6 depth rest step =>
    obtain ⟨count, found, length⟩ := Option.map_eq_some_iff.mp closed
    obtain rfl : count = rest.length := by simpa using length
    have outer : depth.succ + below + 1 = depth + below + 1 + 1 := by omega
    rw [outer]
    simp only [List.cons_append, listLength, step found, Option.map_map, List.length_cons]
    rfl
  | case7 depth c rest opening closing further step =>
    obtain ⟨count, found, length⟩ := Option.map_eq_some_iff.mp closed
    obtain rfl : count = rest.length := by simpa using length
    have notClosing : c ≠ ']' := by
      intro equal
      cases depth with
      | zero => exact closing rfl equal
      | succ depth => exact further depth rfl equal
    rw [List.cons_append, listLength, step found, Option.map_map]
    · rfl
    · exact opening
    · exact fun _ equal => notClosing equal
    · exact fun _ _ equal => notClosing equal

/-- The characters of names. -/
def isNameChar (c : Char) : Bool :=
  Text.isAlphanumeric c || c == '_' || c == '.'

theorem isNameChar_of_nameLength {rest : List Char} (all : rest.length ≤ nameLength rest) :
    rest.all isNameChar = true := by
  induction rest with
  | nil => rfl
  | cons c more step =>
    rw [nameLength] at all
    rw [List.all_cons, Bool.and_eq_true]
    split at all
    · rename_i goes
      exact ⟨by simp [isNameChar, goes], step (by simpa using all)⟩
    · split at all
      · rename_i dot
        simp only [Bool.and_eq_true] at dot
        exact ⟨by simp [isNameChar, dot.1], step (by simpa using all)⟩
      · simp at all

theorem isNameChar_of_numberLength {rest : List Char} (all : rest.length ≤ numberLength rest) :
    rest.all isNameChar = true := by
  obtain ⟨digits, others, rfl, length, areDigits, -⟩ := digits_split rest
  have nameDigits : ∀ {some : List Char}, (∀ c ∈ some, c.isDigit = true) → some.all isNameChar = true := by
    intro some areDigits
    rw [List.all_eq_true]
    exact fun c member => by simp [isNameChar, isDigit_alphanumeric (areDigits c member)]
  have dropped : (digits ++ others).drop digits.length = others := by simp
  simp only [numberLength, length, dropped, List.length_append] at all
  rw [List.all_append, nameDigits areDigits, Bool.true_and]
  split at all
  · rename_i decimals
    obtain ⟨more, left, rfl, moreLength, areMore, -⟩ := digits_split decimals
    split at all
    · simp only [List.length_cons] at all
      omega
    · rename_i count counted
      have none_ : left = [] := by
        rw [← List.length_eq_zero_iff]
        simp only [List.length_cons, List.length_append] at all
        omega
      subst none_
      simpa [isNameChar] using nameDigits areMore
  · rw [List.length_eq_zero_iff.mp (by omega : others.length = 0)]
    rfl

theorem getLast?_of_quotedLength {quote : Char} {own : List Char}
    (closed : quotedLength quote own = (true, own.length)) : own.getLast? = some quote := by
  fun_induction quotedLength quote own with
  | case1 => simp at closed
  | case2 => simp at closed
  | case3 c rest inner count found step =>
    simp only [List.length_cons, Prod.mk.injEq] at closed
    obtain ⟨rfl, length⟩ := closed
    obtain rfl : count = rest.length := by omega
    rw [List.getLast?_cons, List.getLast?_cons, step found]
    rfl
  | case4 c rest alone followed quoted =>
    simp only [List.length_cons, Prod.mk.injEq, true_and] at closed
    obtain rfl : rest = [] := List.length_eq_zero_iff.mp (by omega)
    simpa using quoted
  | case5 => simp at closed
  | case6 c rest alone followed unquoted sameLine inner count found step =>
    simp only [List.length_cons, Prod.mk.injEq] at closed
    obtain ⟨rfl, length⟩ := closed
    obtain rfl : count = rest.length := by omega
    rw [List.getLast?_cons, step found]
    rfl

theorem getLast?_of_listLength {depth : Nat} {quote : Option Char} {own : List Char}
    (closed : listLength depth quote own = some own.length) : own.getLast? = some ']' := by
  fun_induction listLength depth quote own with
  | case1 => simp at closed
  | case2 depth quote c rest step =>
    obtain ⟨count, found, length⟩ := Option.map_eq_some_iff.mp closed
    obtain rfl : count = rest.length := by simpa using length
    rw [List.getLast?_cons, List.getLast?_cons, step found]
    rfl
  | case5 tail =>
    obtain rfl : tail = [] := by simpa using closed
    rfl
  | _ =>
    rename_i step
    obtain ⟨count, found, length⟩ := Option.map_eq_some_iff.mp closed
    obtain rfl : count = _ := by simpa using length
    rw [List.getLast?_cons, step found]
    rfl

/-- **The forms of a word**: a name or a number, a text between quotes, or a list. -/
theorem IsWord.form {kind : Token.Kind} {own : List Char} (isWord : IsWord kind own)
    (isOpen : isOpenKind kind = true) :
    (∃ c rest, own = c :: rest ∧ own.all isNameChar = true) ∨
      (∃ quote rest, (quote = '"' ∨ quote = '\x60') ∧ own = quote :: rest ∧
        quotedLength quote rest = (true, rest.length)) ∨
      (∃ rest, own = '[' :: rest ∧ listLength 0 none rest = some rest.length) := by
  obtain ⟨c, rest, rfl, same, all⟩ := isWord_iff.mp isWord
  rw [← same] at isOpen
  have notBlank := not_blank_of_isOpenKind isOpen
  by_cases digit : c.isDigit = true
  · rw [classify_number notBlank digit] at all
    refine .inl ⟨c, rest, rfl, ?_⟩
    rw [List.all_cons, isNameChar_of_numberLength all]
    simp [isNameChar, isDigit_alphanumeric digit]
  by_cases name : startsName c = true
  · rw [classify_name notBlank (Bool.eq_false_iff.mpr digit) name] at all
    refine .inl ⟨c, rest, rfl, ?_⟩
    rw [List.all_cons, isNameChar_of_nameLength all, Bool.and_true]
    simp only [startsName, Bool.or_eq_true] at name
    rcases name with letter | underscore
    · simp [isNameChar, Text.isAlphanumeric_of_isAlphabetic letter]
    · simp [isNameChar, underscore]
  rcases start_of_isOpenKind isOpen with starts | starts | rfl | rfl | rfl
  · exact absurd starts digit
  · exact absurd starts name
  · rw [classify_quote] at all isOpen
    have closed : (quotedLength '"' rest).1 = true := by
      cases found : (quotedLength '"' rest).1 <;> simp_all [isOpenKind]
    exact .inr (.inl ⟨_, rest, .inl rfl, rfl, Prod.ext closed (Nat.le_antisymm (quotedLength_le _ _) all)⟩)
  · rw [classify_backquote] at all isOpen
    have closed : (quotedLength '\x60' rest).1 = true := by
      cases found : (quotedLength '\x60' rest).1 <;> simp_all [isOpenKind]
    exact .inr (.inl ⟨_, rest, .inr rfl, rfl, Prod.ext closed (Nat.le_antisymm (quotedLength_le _ _) all)⟩)
  · rw [classify_list] at all isOpen
    cases found : listLength 0 none rest with
    | none => simp [found, isOpenKind] at isOpen
    | some length =>
      simp only [found, Option.map_some, Option.getD_some] at all
      exact .inr (.inr ⟨rest, rfl, by rw [found, Nat.le_antisymm (listLength_le found) all]⟩)

/-- Names and numbers do not go over the end of their line. -/
theorem not_mem_of_isNameChar {own : List Char} (named : own.all isNameChar = true) : '\n' ∉ own := by
  intro member
  have nameChar := List.all_eq_true.mp named _ member
  revert nameChar
  decide

/-- A text between quotes is no name and no number. -/
theorem IsWord.kind_of_quote {kind : Token.Kind} {quote : Char} {rest : List Char} (isWord : IsWord kind (quote :: rest))
    (quotes : quote = '"' ∨ quote = '\x60') : kind ≠ .identifier ∧ kind ≠ .literal := by
  obtain ⟨_, _, same, rfl, -⟩ := isWord_iff.mp isWord
  simp only [List.cons.injEq] at same
  obtain ⟨rfl, rfl⟩ := same
  rcases quotes with rfl | rfl
  · rw [classify_quote]
    cases (quotedLength '"' rest).1 <;> simp
  · rw [classify_backquote]
    cases (quotedLength '\x60' rest).1 <;> simp

/-- Names have the characters of names. -/
theorem IsWord.isNameChar {own : List Char} (isWord : IsWord .identifier own) : own.all isNameChar = true := by
  rcases isWord.form rfl with ⟨_, _, -, named⟩ | ⟨quote, rest, quotes, rfl, -⟩ | ⟨rest, rfl, -⟩
  · exact named
  · exact absurd rfl (isWord.kind_of_quote quotes).1
  · obtain ⟨_, _, same, kind, -⟩ := isWord_iff.mp isWord
    simp only [List.cons.injEq] at same
    obtain ⟨rfl, rfl⟩ := same
    rw [classify_list] at kind
    cases closed : listLength 0 none rest <;> simp [closed] at kind

/-- So have literals that are no lists. -/
theorem IsWord.isNameChar_of_literal {own : List Char} (isWord : IsWord .literal own) (notList : own.head? ≠ some '[') :
    own.all DerwLang.isNameChar = true := by
  rcases isWord.form rfl with ⟨_, _, -, named⟩ | ⟨quote, rest, quotes, rfl, -⟩ | ⟨rest, rfl, -⟩
  · exact named
  · exact absurd rfl (isWord.kind_of_quote quotes).2
  · exact absurd rfl notList

/-- So have numbers. -/
theorem IsWord.isNameChar_of_digit {c : Char} {rest : List Char} (isWord : IsWord .literal (c :: rest))
    (digit : c.isDigit = true) : (c :: rest).all DerwLang.isNameChar = true := by
  refine isWord.isNameChar_of_literal fun same => ?_
  obtain rfl := Option.some.inj same
  exact absurd digit (by decide)

/-- A word starts with no blank. -/
theorem IsWord.start {kind : Token.Kind} {own : List Char} (isWord : IsWord kind own)
    (isOpen : isOpenKind kind = true) : ∃ c rest, own = c :: rest ∧ Text.isBlank c = false := by
  obtain ⟨c, rest, rfl, same, -⟩ := isWord_iff.mp isWord
  exact ⟨c, rest, rfl, not_blank_of_isOpenKind (same ▸ isOpen)⟩

/-- No interval of the one set meets an interval of the other. -/
def Text.CodeRanges.apart (first second : Text.CodeRanges) : Bool :=
  first.all fun range => second.all fun other => Nat.blt range.2 other.1 || Nat.blt other.2 range.1

theorem Text.CodeRanges.not_contains_of_apart {first second : Text.CodeRanges} {code : Nat}
    (apart : first.apart second = true) (inside : first.contains code = true) : second.contains code = false := by
  obtain ⟨range, member, low, high⟩ := contains_iff.mp inside
  refine Bool.eq_false_iff.mpr fun both => ?_
  obtain ⟨other, otherMember, otherLow, otherHigh⟩ := contains_iff.mp both
  have away := List.all_eq_true.mp (List.all_eq_true.mp apart range member) other otherMember
  simp only [Nat.blt_eq, Bool.or_eq_true] at away
  omega

theorem blanks_apart_letters : Text.blankRanges.apart Text.alphabeticRanges = true := by
  decide +kernel

theorem blanks_apart_numbers : Text.blankRanges.apart Text.numericRanges = true := by
  decide +kernel

/-- The ASCII blanks come before the letters and the numbers. -/
theorem le_of_isBlank {c : Char} (blank : Text.isBlank c = true) (small : c.toNat < 128) : c.toNat ≤ 32 := by
  have early : Text.blankRanges.all (fun range => Nat.ble range.2 32 || Nat.ble 128 range.1) = true := by decide
  obtain ⟨range, member, low, high⟩ := Text.CodeRanges.contains_iff.mp blank
  have away := List.all_eq_true.mp early range member
  simp only [Nat.ble_eq, Bool.or_eq_true] at away
  omega

/-- No blank is a letter or a number. -/
theorem not_isAlphanumeric_of_isBlank {c : Char} (blank : Text.isBlank c = true) : Text.isAlphanumeric c = false := by
  unfold Text.isAlphanumeric
  split
  case isTrue small =>
    have early : ∀ code ≤ 32, (Char.ofNat code).isAlphanum = false := by decide
    simpa using early c.toNat (le_of_isBlank blank small)
  case isFalse =>
    rw [Text.CodeRanges.not_contains_of_apart blanks_apart_letters blank,
      Text.CodeRanges.not_contains_of_apart blanks_apart_numbers blank]
    rfl

theorem not_blank_of_isNameChar {c : Char} (named : isNameChar c = true) : Text.isBlank c = false := by
  cases blank : Text.isBlank c with
  | false => rfl
  | true =>
    simp only [isNameChar, not_isAlphanumeric_of_isBlank blank, Bool.false_or, Bool.or_eq_true, beq_iff_eq] at named
    rcases named with rfl | rfl <;> exact absurd blank (by decide)

/-- A word starts and ends with something that shows. -/
theorem IsWord.solid {kind : Token.Kind} {own : List Char} (isWord : IsWord kind own)
    (isOpen : isOpenKind kind = true) : Solid own := by
  refine ⟨isWord.start isOpen, ?_⟩
  have last : ∃ c, own.getLast? = some c ∧ Text.isBlank c = false := by
    rcases isWord.form isOpen with ⟨c, rest, rfl, named⟩ | ⟨quote, rest, quotes, rfl, closed⟩ | ⟨rest, rfl, closed⟩
    · have found := List.getLast?_eq_some_getLast (List.cons_ne_nil c rest)
      exact ⟨_, found, not_blank_of_isNameChar (List.all_eq_true.mp named _ (List.mem_of_getLast? found))⟩
    · refine ⟨quote, by rw [List.getLast?_cons, getLast?_of_quotedLength closed]; rfl, ?_⟩
      rcases quotes with rfl | rfl <;> decide
    · exact ⟨']', by rw [List.getLast?_cons, getLast?_of_listLength closed]; rfl, by decide⟩
  obtain ⟨c, found, visible⟩ := last
  obtain ⟨before, same⟩ := List.getLast?_eq_some_iff.mp found
  exact ⟨before, c, same, visible⟩

/-- **The search for a closing bracket passes over words.** -/
theorem IsWord.passes {kind : Token.Kind} {own : List Char} (isWord : IsWord kind own)
    (isOpen : isOpenKind kind = true) : Passes own := by
  rcases isWord.form isOpen with ⟨c, rest, rfl, named⟩ | ⟨quote, rest, quotes, rfl, closed⟩ | ⟨rest, rfl, closed⟩
  · refine passes_of_inert (List.all_eq_true.mpr fun d member => ?_)
    have nameChar := List.all_eq_true.mp named d member
    simp only [isInert, Bool.and_eq_true, bne_iff_ne]
    refine ⟨⟨⟨?_, ?_⟩, ?_⟩, ?_⟩ <;>
      · rintro rfl
        revert nameChar
        decide
  · intro depth after
    have opened : listLength depth none (quote :: (rest ++ after)) =
        (listLength depth (some quote) (rest ++ after)).map (· + 1) := by
      rcases quotes with rfl | rfl <;> simp [listLength]
    rw [List.cons_append, opened, listLength_quoted closed, Option.map_map]
    rfl
  · intro depth after
    have nested := listLength_nested closed depth after
    rw [Nat.zero_add] at nested
    rw [List.cons_append, listLength, nested, Option.map_map]
    rfl

/-! ## Signs -/

/-- What may follow a sign, and a word of any other kind as well. -/
def isGap : List Char → Bool
  | [] => true
  | c :: _ => c == ' ' || c == '\n' || c == ',' || c == ')' || c == ']' || c == '\x7d'

theorem endsWord_of_isGap {after : List Char} (gap : isGap after = true) : endsWord after = true := by
  cases after with
  | nil => rfl
  | cons c rest =>
    simp only [isGap, Bool.or_eq_true, beq_iff_eq] at gap
    rcases gap with ((((rfl | rfl) | rfl) | rfl) | rfl) | rfl <;> rfl

/-- The signs of the language with the characters they are written with. -/
def signs : List (Token.Kind × List Char) :=
  [(.operator .less, ['<']), (.operator .lessEqual, ['<', '=']), (.operator .greater, ['>']),
    (.operator .greaterEqual, ['>', '=']), (.operator .equal, ['=', '=']), (.operator .notEqual, ['!', '=']),
    (.operator .minus, ['-']), (.operator .plus, ['+']), (.operator .star, ['*']), (.operator .slash, ['/']),
    (.operator .pipeRight, ['|', '>']), (.operator .pipeLeft, ['<', '|']), (.operator .and, ['&', '&']),
    (.operator .or, ['|', '|']), (.operator .cons, [':', ':']), (.assign, ['=']), (.arrow, ['-', '>']),
    (.colon, [':']), (.pipe, ['|']), (.comma, [',']), (.closeBracket, [')']), (.closeCurly, ['\x7d']),
    (.openCurly, ['\x7b'])]

/-- **Signs stand before spaces, new lines and closing brackets.** -/
theorem stands_sign {kind : Token.Kind} {own after : List Char} (sign : (kind, own) ∈ signs)
    (gap : isGap after = true) : Doc.Stands kind own after := by
  have taken : ∃ c rest, own = c :: rest ∧ kind ≠ .whitespace ∧
      classify c (rest ++ after) = (kind, rest.length) := by
    simp only [signs, List.mem_cons, Prod.mk.injEq, List.not_mem_nil, or_false] at sign
    cases after with
    | nil =>
      casesm* _ ∨ _, _ ∧ _ <;> subst_vars <;> exact ⟨_, _, rfl, by simp, rfl⟩
    | cons d more =>
      -- a sign looks at one further character at most, and at none of these six
      simp only [isGap, Bool.or_eq_true, beq_iff_eq] at gap
      casesm* _ ∨ _, _ ∧ _ <;> subst_vars <;> exact ⟨_, _, rfl, by simp, rfl⟩
  obtain ⟨c, rest, rfl, visible, taken⟩ := taken
  exact stands_of_classify visible taken

end DerwLang
