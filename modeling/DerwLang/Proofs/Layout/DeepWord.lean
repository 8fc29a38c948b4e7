/-
**Words that are moved in.**

A text between quotes and a list may go over several lines, and then its lines move with the text around it. It is still
one word of the same kind afterwards (`IsWord.deepen`): spaces at the start of a line neither close a quote or a bracket
nor take part in an escape.
-/

import DerwLang.Proofs.Layout.Word

namespace DerwLang

open Layout Lexeme

/-! ## Blanks that make no difference -/

/-- Blanks within one line. -/
def Held (blanks : List Char) : Prop :=
  ∀ c ∈ blanks, Text.isBlank c = true ∧ c ≠ '\n'

theorem held_nil : Held [] := by simp [Held]

theorem held_concat {blanks : List Char} {c : Char} (held : Held blanks) (blank : Text.isBlank c = true)
    (notFeed : c ≠ '\n') : Held (blanks ++ [c]) := by
  intro d member
  rcases List.mem_append.mp member with before | last
  · exact held d before
  · rw [List.mem_singleton.mp last]
    exact ⟨blank, notFeed⟩

theorem held_levelChars {blanks : List Char} (held : Held blanks) : Held (levelChars ++ blanks) := by
  intro c member
  rcases List.mem_append.mp member with space | later
  · rw [List.eq_of_mem_replicate (show c ∈ List.replicate 4 ' ' from space)]
    decide
  · exact held c later

section Neutral

variable {P : List Char → Prop} {c : Char} {rest : List Char}

/-- What holds of the text from a character on holds with blanks held back before it. -/
theorem of_whole (neutral : ∀ {blanks own}, Held blanks → P own → P (blanks ++ own)) (notFeed : c ≠ '\n')
    (whole : P (deepenFrom none (c :: rest)))
    (later : Text.isBlank c = true → ∀ state : Option (List Char), Held (state.getD []) → P (deepenFrom state rest))
    {state : Option (List Char)} (held : Held (state.getD [])) : P (deepenFrom state (c :: rest)) := by
  cases state with
  | none => exact whole
  | some blanks =>
    rw [deepenFrom_some_cons notFeed]
    split
    · rename_i blank
      exact later blank (some (blanks ++ [c])) (held_concat held blank notFeed)
    · rename_i shown
      have visible : Text.isBlank c = false := by simpa using shown
      rw [deepenFrom_none_cons notFeed (ne_of_visible visible return_blank)] at whole
      exact neutral (held_levelChars held) whole

/-- A character stays, unless it is a carriage return that belongs to the line end. -/
theorem whole_of_stays (notFeed : c ≠ '\n') (stays : P (c :: deepenFrom none rest))
    (returned : ∀ others, c = '\r' → rest = '\n' :: others → P ('\n' :: deepenFrom (some []) others)) :
    P (deepenFrom none (c :: rest)) := by
  by_cases ended : ∃ others, c = '\r' ∧ rest = '\n' :: others
  · obtain ⟨others, rfl, rfl⟩ := ended
    exact returned others rfl rfl
  · rw [deepenFrom]
    · exact stays
    · exact notFeed
    · exact fun others one two => ended ⟨others, one, two⟩

end Neutral

/-! ## Quoted texts -/

/-- The characters after an opening quote, the closing one being the last of them. -/
inductive Quoted (quote : Char) : List Char → Prop
  | close : Quoted quote [quote]
  | escape {c : Char} {rest : List Char} (inner : Quoted quote rest) : Quoted quote ('\\' :: c :: rest)
  | plain {c : Char} {rest : List Char} (notQuote : c ≠ quote) (notBackslash : c ≠ '\\')
      (stays : ¬ (c = '\n' ∧ quote = '"')) (inner : Quoted quote rest) : Quoted quote (c :: rest)

/-- That a quote is closed by the last character is seen from its length. -/
theorem quoted_iff {quote : Char} (notBackslash : quote ≠ '\\') {own : List Char} :
    Quoted quote own ↔ quotedLength quote own = (true, own.length) := by
  constructor
  · intro quoted
    induction quoted with
    | close => rw [quotedLength_cons notBackslash]; simp
    | escape _ step => simp [quotedLength, step]
    | plain notQuote notBackslash stays _ step =>
      rw [quotedLength_cons notBackslash, if_neg (by simpa using notQuote), if_neg (by simpa using stays), step]
      rfl
  · intro closed
    fun_induction quotedLength quote own with
    | case1 => simp at closed
    | case2 => simp at closed
    | case3 c rest inner count found step =>
      simp only [Prod.mk.injEq, List.length_cons, Nat.add_right_cancel_iff] at closed
      obtain ⟨rfl, rfl⟩ := closed
      exact .escape (step found)
    | case4 c rest alone followed quoted =>
      have last : rest = [] := by simpa using (Prod.mk.inj closed).2
      have same : c = quote := by simpa using quoted
      rw [last, same]
      exact .close
    | case5 => simp at closed
    | case6 c rest alone followed unquoted sameLine inner count found step =>
      simp only [Prod.mk.injEq, List.length_cons, Nat.add_right_cancel_iff] at closed
      obtain ⟨rfl, rfl⟩ := closed
      exact .plain (by simpa using unquoted) (ne_backslash alone followed) (by simpa using sameLine) (step found)

namespace Quoted

variable {quote : Char} {own : List Char}

/-- Blanks within one line do not matter. -/
theorem blanks (visible : Text.isBlank quote = false) {blanks : List Char} (held : Held blanks)
    (quoted : Quoted quote own) : Quoted quote (blanks ++ own) := by
  induction blanks with
  | nil => exact quoted
  | cons c more step =>
    obtain ⟨blank, notFeed⟩ := held c List.mem_cons_self
    refine .plain (ne_of_visible visible blank).symm ?_ (fun both => notFeed both.1)
      (step fun d member => held d (List.mem_cons_of_mem _ member))
    exact (ne_of_visible (d := c) (by decide) blank).symm

/-- What follows a line feed that is not escaped is quoted by itself. -/
theorem of_feed (visible : Text.isBlank quote = false) (quoted : Quoted quote ('\n' :: own)) : Quoted quote own := by
  cases quoted with
  | close => simp [feed_blank] at visible
  | plain _ _ _ inner => exact inner

/-- **A quoted text stays one when it is moved in.** -/
theorem deepenFrom (visible : Text.isBlank quote = false) (quoted : Quoted quote own) (state : Option (List Char))
    (held : Held (state.getD [])) : Quoted quote (Layout.deepenFrom state own) := by
  have neutral : ∀ {blanks own}, Held blanks → Quoted quote own → Quoted quote (blanks ++ own) :=
    fun held quoted => quoted.blanks visible held
  induction quoted generalizing state with
  | close =>
    refine of_whole neutral (ne_of_visible visible feed_blank) ?_ (fun blank => ?_) held
    · rw [deepenFrom_none_cons (ne_of_visible visible feed_blank) (ne_of_visible visible return_blank)]
      exact .close
    · simp [visible] at blank
  | @escape c rest inner step =>
    refine of_whole neutral (by decide) ?_ (fun blank => absurd blank (by decide)) held
    rw [deepenFrom_none_cons (by decide) (by decide)]
    by_cases feed : c = '\n'
    · rw [feed]
      exact .escape (step (some []) held_nil)
    · refine whole_of_stays (P := fun own => Quoted quote ('\\' :: own)) feed (.escape (step none held_nil)) ?_
      rintro others rfl rfl
      have later : Quoted quote ('\n' :: Layout.deepenFrom (some []) others) := step none held_nil
      exact .escape (later.of_feed visible)
  | @plain c rest notQuote notBackslash stays inner step =>
    by_cases feed : c = '\n'
    · have later : Quoted quote (c :: Layout.deepenFrom (some []) rest) :=
        .plain notQuote notBackslash stays (step (some []) held_nil)
      subst feed
      cases state <;> exact later
    · refine of_whole neutral feed ?_ (fun _ => step) held
      refine whole_of_stays feed (.plain notQuote notBackslash stays (step none held_nil)) ?_
      rintro others rfl rfl
      exact step none held_nil

end Quoted

/-! ## Lists -/

/-- The characters after the opening bracket of a list, with further ones open and perhaps within a quote, the closing
bracket being the last of them. -/
inductive Listed : Nat → Option Char → List Char → Prop
  | escape {depth : Nat} {quote c : Char} {rest : List Char} (inner : Listed depth (some quote) rest) :
      Listed depth (some quote) ('\\' :: c :: rest)
  | quoted {depth : Nat} {quote c : Char} {rest : List Char} (notBackslash : c ≠ '\\')
      (inner : Listed depth (if c == quote then none else some quote) rest) : Listed depth (some quote) (c :: rest)
  | opening {depth : Nat} {rest : List Char} (inner : Listed (depth + 1) none rest) : Listed depth none ('[' :: rest)
  | last : Listed 0 none [']']
  | closing {depth : Nat} {rest : List Char} (inner : Listed depth none rest) :
      Listed (depth + 1) none (']' :: rest)
  | other {depth : Nat} {c : Char} {rest : List Char} (notOpening : c ≠ '[') (notClosing : c ≠ ']')
      (inner : Listed depth (if c == '"' || c == '\x60' then some c else none) rest) : Listed depth none (c :: rest)

/-- That a list is closed by the last character is seen from its length. -/
theorem listed_iff {depth : Nat} {quote : Option Char} {own : List Char} :
    Listed depth quote own ↔ listLength depth quote own = some own.length := by
  constructor
  · intro listed
    induction listed with
    | escape _ step => simp [listLength, step]
    | quoted notBackslash _ step =>
      rw [listLength, step]
      · simp
      · exact fun _ _ equal _ => notBackslash equal
    | opening _ step => simp [listLength, step]
    | last => simp [listLength]
    | closing _ step => simp [listLength, step]
    | other notOpening notClosing _ step =>
      rw [listLength, step]
      · simp
      · exact notOpening
      · exact fun _ => notClosing
      · exact fun _ _ => notClosing
  · intro closed
    fun_induction listLength depth quote own with
    | case1 => simp at closed
    | case2 depth quote c rest step => exact .escape (step (by simpa using closed))
    | case3 depth quote c rest followed step =>
      have inner : listLength depth (if c == quote then none else some quote) rest = some rest.length := by
        simpa using closed
      refine .quoted (ne_backslash (fun _ none_ => ?_) followed) (step inner)
      simp [none_, listLength] at inner
    | case4 depth rest step => exact .opening (step (by simpa using closed))
    | case5 rest =>
      have nothing : rest = [] := by simpa using closed
      rw [nothing]
      exact .last
    | case6 depth rest step => exact .closing (step (by simpa using closed))
    | case7 depth c rest notOpening notLast notClosing step =>
      refine .other notOpening ?_ (step (by simpa using closed))
      cases depth with
      | zero => exact notLast rfl
      | succ depth => exact notClosing depth rfl

namespace Listed

variable {depth : Nat} {quote : Option Char} {own : List Char}

/-- Blanks within one line do not matter. -/
theorem blanks (visible : ∀ c ∈ quote, Text.isBlank c = false) {blanks : List Char} (held : Held blanks)
    (listed : Listed depth quote own) : Listed depth quote (blanks ++ own) := by
  induction blanks with
  | nil => exact listed
  | cons c more step =>
    have blank := (held c List.mem_cons_self).1
    have later : Listed depth quote (more ++ own) := step fun d member => held d (List.mem_cons_of_mem _ member)
    have differs : ∀ {d : Char}, Text.isBlank d = false → c ≠ d := fun shown => (ne_of_visible shown blank).symm
    cases quote with
    | none =>
      refine .other (differs (by decide)) (differs (by decide)) ?_
      have noQuote : (c == '"' || c == '\x60') = false := by
        simp [differs (d := '"') (by decide), differs (d := '\x60') (by decide)]
      rwa [if_neg (by simp [noQuote])]
    | some sign =>
      refine .quoted (differs (by decide)) ?_
      rwa [if_neg (by simp [differs (visible sign rfl)])]

/-- What follows a line feed that is not escaped is listed by itself. -/
theorem of_feed (visible : ∀ c ∈ quote, Text.isBlank c = false) (listed : Listed depth quote ('\n' :: own)) :
    Listed depth quote own := by
  cases listed with
  | @quoted _ sign _ _ _ inner =>
    have differs : '\n' ≠ sign := (ne_of_visible (visible sign rfl) feed_blank).symm
    rwa [if_neg (by simpa using differs)] at inner
  | other _ _ inner => exact inner

/-- A character before a list that is moved in; one that is blank changes nothing about what is open. -/
theorem carry {inner : Nat} {within : Option Char} {c : Char} {rest : List Char}
    (visible : ∀ c ∈ quote, Text.isBlank c = false)
    (extend : ∀ {more : List Char}, Listed inner within more → Listed depth quote (c :: more))
    (same : Text.isBlank c = true → inner = depth ∧ within = quote)
    (step : ∀ state : Option (List Char), Held (state.getD []) → Listed inner within (Layout.deepenFrom state rest))
    {state : Option (List Char)} (held : Held (state.getD [])) :
    Listed depth quote (Layout.deepenFrom state (c :: rest)) := by
  by_cases feed : c = '\n'
  · have later : Listed depth quote (c :: Layout.deepenFrom (some []) rest) := extend (step (some []) held_nil)
    subst feed
    cases state <;> exact later
  · refine of_whole (fun held listed => listed.blanks visible held) feed ?_ (fun blank => ?_) held
    · refine whole_of_stays feed (extend (step none held_nil)) ?_
      rintro others rfl rfl
      obtain ⟨rfl, rfl⟩ := same (by decide)
      exact step none held_nil
    · obtain ⟨rfl, rfl⟩ := same blank
      exact step

/-- **A list stays one when it is moved in.** -/
theorem deepenFrom (visible : ∀ c ∈ quote, Text.isBlank c = false) (listed : Listed depth quote own)
    (state : Option (List Char)) (held : Held (state.getD [])) :
    Listed depth quote (Layout.deepenFrom state own) := by
  have shown : ∀ {c d : Char}, Text.isBlank c = true → Text.isBlank d = false → (c == d) = false :=
    fun blank visible => by simpa using (ne_of_visible visible blank).symm
  induction listed generalizing state with
  | @escape depth sign c rest inner step =>
    refine of_whole (fun held listed => listed.blanks visible held) (by decide) ?_
      (fun blank => absurd blank (by decide)) held
    rw [deepenFrom_none_cons (by decide) (by decide)]
    by_cases feed : c = '\n'
    · rw [feed]
      exact .escape (step visible (some []) held_nil)
    · refine whole_of_stays (P := fun own => Listed depth (some sign) ('\\' :: own)) feed
        (.escape (step visible none held_nil)) ?_
      rintro others rfl rfl
      have later : Listed depth (some sign) ('\n' :: Layout.deepenFrom (some []) others) :=
        step visible none held_nil
      exact .escape (later.of_feed visible)
  | @quoted depth sign c rest notBackslash inner step =>
    refine carry visible (.quoted notBackslash) (fun blank => ⟨rfl, ?_⟩) (step ?_) held
    · rw [shown blank (visible sign rfl)]
      rfl
    · intro d member
      split at member
      · simp at member
      · exact visible d member
  | opening _ step =>
    exact carry visible .opening (fun blank => absurd blank (by decide)) (step (by simp)) held
  | last =>
    refine of_whole (fun held listed => listed.blanks visible held) (by decide) .last
      (fun blank => absurd blank (by decide)) held
  | closing _ step =>
    exact carry visible .closing (fun blank => absurd blank (by decide)) (step (by simp)) held
  | @other depth c rest notOpening notClosing inner step =>
    refine carry visible (.other notOpening notClosing) (fun blank => ⟨rfl, ?_⟩) (step ?_) held
    · rw [shown blank (d := '"') (by decide), shown blank (d := '\x60') (by decide)]
      rfl
    · intro d member
      split at member
      · rename_i quotes
        rw [Option.mem_def, Option.some.injEq] at member
        subst member
        simp only [Bool.or_eq_true, beq_iff_eq] at quotes
        rcases quotes with rfl | rfl <;> decide
      · simp at member

end Listed

/-! ## Words -/

/-- **A word stays one of its kind when it is moved in.** -/
theorem IsWord.deepen {kind : Token.Kind} {own : List Char} (isWord : IsWord kind own)
    (isOpen : isOpenKind kind = true) : IsWord kind (Layout.deepen own) := by
  rcases isWord.form isOpen with ⟨c, rest, rfl, named⟩ | ⟨quote, rest, quotes, rfl, closed⟩ | ⟨rest, rfl, closed⟩
  · rwa [deepen_flat (not_mem_of_isNameChar named)]
  · obtain ⟨c, more, same, kindSame, -⟩ := isWord_iff.mp isWord
    obtain ⟨rfl, rfl⟩ := List.cons.inj same
    have visible : Text.isBlank quote = false := by rcases quotes with rfl | rfl <;> decide
    have notBackslash : quote ≠ '\\' := by rcases quotes with rfl | rfl <;> decide
    have moved : quotedLength quote (deepenFrom none rest) = (true, (deepenFrom none rest).length) :=
      (quoted_iff notBackslash).mp (((quoted_iff notBackslash).mpr closed).deepenFrom visible none held_nil)
    have first : Layout.deepen (quote :: rest) = quote :: deepenFrom none rest :=
      deepenFrom_none_cons (ne_of_visible visible feed_blank) (ne_of_visible visible return_blank) rest
    rw [first, ← kindSame]
    refine isWord_iff.mpr ⟨quote, deepenFrom none rest, rfl, ?_, ?_⟩
    · rcases quotes with rfl | rfl
      · rw [classify_quote, classify_quote, closed, moved]
      · rw [classify_backquote, classify_backquote, closed, moved]
    · rcases quotes with rfl | rfl
      · exact Nat.le_of_eq (by rw [classify_quote, moved])
      · exact Nat.le_of_eq (by rw [classify_backquote, moved])
  · obtain ⟨c, more, same, kindSame, -⟩ := isWord_iff.mp isWord
    obtain ⟨rfl, rfl⟩ := List.cons.inj same
    have moved : listLength 0 none (deepenFrom none rest) = some (deepenFrom none rest).length :=
      listed_iff.mp ((listed_iff.mpr closed).deepenFrom (by simp) none held_nil)
    have first : Layout.deepen ('[' :: rest) = '[' :: deepenFrom none rest :=
      deepenFrom_none_cons (by decide) (by decide) rest
    rw [first, ← kindSame]
    refine isWord_iff.mpr ⟨'[', deepenFrom none rest, rfl, ?_, ?_⟩
    · rw [classify_list, classify_list, closed, moved]
      rfl
    · rw [classify_list, moved]
      exact Nat.le_refl _

/-- A word stays one of its kind when it is moved in some levels. -/
theorem IsWord.iterate {kind : Token.Kind} {own : List Char} (isWord : IsWord kind own)
    (isOpen : isOpenKind kind = true) (levels : Nat) : IsWord kind (Layout.deepen^[levels] own) := by
  induction levels with
  | zero => exact isWord
  | succ levels step =>
    rw [Function.iterate_succ_apply']
    exact step.deepen isOpen

end DerwLang
