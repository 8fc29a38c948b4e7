/-
**How written texts are put together.**

Everything that is written in the canonical layout is a phrase: words beside and below each other, brackets around
phrases, and the three constructs that are told by reserved words. What all of it has in common is shown once, by
induction on phrases:

* `Phrase.lexes`: every word is told apart from what follows;
* `Phrase.passes`: a list literal may hold any phrase;
* `Phrase.shift`: a phrase stays one when it is moved to the right;
* `Phrase.visible_chars`: reading the text gives the words.
-/

import DerwLang.Proofs.Layout.Balanced
import DerwLang.Proofs.Layout.DeepWord

namespace DerwLang

open Layout Lexeme

/-- A text that is written in the canonical layout; whether commas may stand in it outside of brackets is told by the
first argument. -/
inductive Phrase : Bool → Doc → Prop
  | word {commas : Bool} {kind : Token.Kind} {own : List Char} (isOpen : isOpenKind kind = true)
      (plain : isPlainKind kind = true) (isWord : IsWord kind own) : Phrase commas (.word kind own .done)
  | sign {commas : Bool} {kind : Token.Kind} {own : List Char} (isSign : (kind, own) ∈ signs)
      (plain : isPlainKind kind = true) : Phrase commas (.word kind own .done)
  | beside {commas : Bool} {first second : Doc} (one : Phrase commas first) (two : Phrase commas second) :
      Phrase commas (first ++ .space second)
  | under {commas : Bool} {first second : Doc} (blank : Bool) (indent : Nat) (one : Phrase commas first)
      (two : Phrase commas second) : Phrase commas (first ++ .line blank indent second)
  | comma {first : Doc} (one : Phrase true first) : Phrase true (first ++ .word .comma [','] .done)
  | label {commas : Bool} {own : List Char} (isWord : IsWord .identifier own) :
      Phrase commas (.word .identifier own (.word .colon [':'] .done))
  | round {commas : Bool} {inside : Doc} (inner : Phrase true inside) :
      Phrase commas (.word .openBracket ['('] (inside ++ .word .closeBracket [')'] .done))
  | noRound {commas : Bool} : Phrase commas (.word .openBracket ['('] (.word .closeBracket [')'] .done))
  | curly {commas : Bool} {inside : Doc} (inner : Phrase true inside) :
      Phrase commas (.word .openCurly ['\x7b'] (.space (inside ++ .space (.word .closeCurly ['\x7d'] .done))))
  | curlyLines {commas : Bool} {inside : Doc} (indent outer : Nat) (inner : Phrase true inside) :
      Phrase commas (.word .openCurly ['\x7b'] (.line false indent
        (inside ++ .line false outer (.word .closeCurly ['\x7d'] .done))))
  | emptyCurly {commas : Bool} :
      Phrase commas (.word .openCurly ['\x7b'] (.space (.word .closeCurly ['\x7d'] .done)))
  | noCurly {commas : Bool} : Phrase commas (.word .openCurly ['\x7b'] (.word .closeCurly ['\x7d'] .done))
  | list {commas : Bool} {inside : Doc} (inner : Phrase true inside) :
      Phrase commas (.list (.space (inside ++ .space .done)) .done)
  | emptyList {commas : Bool} : Phrase commas (.list (.space .done) .done)
  | noList {commas : Bool} : Phrase commas (.list .done .done)
  | range {commas : Bool} {kind last : Token.Kind} {first second : List Char} (isOpen : isOpenKind kind = true)
      (lastOpen : isOpenKind last = true) (one : IsWord kind first) (two : IsWord last second) :
      Phrase commas (.list (.space (.word kind first (.word (.operator .range) ['.', '.']
        (.word last second (.space .done))))) .done)
  | negative {commas : Bool} {c : Char} {rest : List Char} (isWord : IsWord .literal (c :: rest))
      (digit : c.isDigit = true) :
      Phrase commas (.word (.operator .minus) ['-'] (.word .literal (c :: rest) .done))
  | lambda {commas : Bool} {inside : Doc} (inner : Phrase commas inside) :
      Phrase commas (.word .backslash ['\\'] inside)
  | conditional {commas : Bool} {test yes no : Doc} (yesIndent outer noIndent : Nat) (one : Phrase false test)
      (two : Phrase false yes) (three : Phrase false no) :
      Phrase commas (.word (.keyword .ifWord) "if".toList (.space (test ++ .space
        (.word (.keyword .thenWord) "then".toList (.line false yesIndent (yes ++ .line false outer
          (.word (.keyword .elseWord) "else".toList (.line false noIndent no))))))))
  | caseOf {commas : Bool} {value branches : Doc} (indent : Nat) (one : Phrase false value)
      (two : Phrase false branches) :
      Phrase commas (.word (.keyword .caseWord) "case".toList (.space (value ++ .space
        (.word (.keyword .ofWord) "of".toList (.line false indent branches)))))
  | letIn {commas : Bool} {locals result : Doc} (indent outer resultIndent : Nat) (one : Phrase false locals)
      (two : Phrase false result) :
      Phrase commas (.word (.keyword .letWord) "let".toList (.line false indent (locals ++ .line false outer
        (.word (.keyword .inWord) "in".toList (.line false resultIndent result)))))

/-- No sign goes over the end of its line. -/
theorem flat_of_mem_signs {kind : Token.Kind} {own : List Char} (isSign : (kind, own) ∈ signs) : '\n' ∉ own := by
  have all : signs.all (fun sign => !sign.2.contains '\n') = true := by decide
  simpa using List.all_eq_true.mp all _ isSign

/-- Signs are single words that show. -/
theorem solid_of_mem_signs {kind : Token.Kind} {own : List Char} (isSign : (kind, own) ∈ signs) : Solid own := by
  have all : signs.all (fun sign => sign.2 != [] && sign.2.all fun c => !Text.isBlank c) = true := by decide
  have own := List.all_eq_true.mp all _ isSign
  simp only [Bool.and_eq_true, bne_iff_ne, List.all_eq_true, Bool.not_eq_true'] at own
  exact solid_of_visible own.1 own.2

/-- A reserved word is one word. -/
theorem isWord_keyword (word : Keyword) : IsWord (.keyword word) word.spelling.toList := by
  cases word <;> rfl

namespace Phrase

variable {commas : Bool} {doc : Doc}

/-! ## Moving -/

/-- A phrase stays a phrase when it is moved in. -/
theorem shift (phrase : Phrase commas doc) (levels : Nat) : Phrase commas (doc.shift levels) := by
  induction phrase with
  | word isOpen plain isWord => exact .word isOpen plain (isWord.iterate isOpen levels)
  | sign isSign plain =>
    rw [Doc.shift_word, iterate_flat (flat_of_mem_signs isSign)]
    exact .sign isSign plain
  | beside _ _ one two => simpa using Phrase.beside one two
  | under blank indent _ _ one two => simpa using Phrase.under blank (indent + 4 * levels) one two
  | comma _ one => simpa using Phrase.comma one
  | label isWord => simpa using Phrase.label (isWord.iterate rfl levels)
  | round _ inner => simpa using Phrase.round inner
  | noRound => simpa using Phrase.noRound
  | curly _ inner => simpa using Phrase.curly inner
  | curlyLines indent outer _ inner =>
    simpa using Phrase.curlyLines (indent + 4 * levels) (outer + 4 * levels) inner
  | emptyCurly => simpa using Phrase.emptyCurly
  | noCurly => simpa using Phrase.noCurly
  | list _ inner => simpa using Phrase.list inner
  | emptyList => exact .emptyList
  | noList => exact .noList
  | range isOpen lastOpen one two =>
    simpa using Phrase.range isOpen lastOpen (one.iterate isOpen levels) (two.iterate lastOpen levels)
  | negative isWord digit =>
    rw [Doc.shift_word, Doc.shift_word, iterate_flat (by decide),
      iterate_flat (not_mem_of_isNameChar (isWord.isNameChar_of_digit digit))]
    exact .negative isWord digit
  | lambda _ inner => simpa using Phrase.lambda inner
  | conditional yesIndent outer noIndent _ _ _ one two three =>
    simpa using
      Phrase.conditional (yesIndent + 4 * levels) (outer + 4 * levels) (noIndent + 4 * levels) one two three
  | caseOf indent _ _ one two => simpa using Phrase.caseOf (indent + 4 * levels) one two
  | letIn indent outer resultIndent _ _ one two =>
    simpa using Phrase.letIn (indent + 4 * levels) (outer + 4 * levels) (resultIndent + 4 * levels) one two

/-- Where commas may stand they need not. -/
theorem weaken (phrase : Phrase commas doc) : Phrase true doc := by
  induction phrase with
  | word isOpen plain isWord => exact .word isOpen plain isWord
  | sign isSign plain => exact .sign isSign plain
  | beside _ _ one two => exact .beside one two
  | under blank indent _ _ one two => exact .under blank indent one two
  | comma _ one => exact .comma one
  | label isWord => exact .label isWord
  | round inner _ => exact .round inner
  | noRound => exact .noRound
  | curly inner _ => exact .curly inner
  | curlyLines indent outer inner _ => exact .curlyLines indent outer inner
  | emptyCurly => exact .emptyCurly
  | noCurly => exact .noCurly
  | list inner _ => exact .list inner
  | emptyList => exact .emptyList
  | noList => exact .noList
  | range isOpen lastOpen one two => exact .range isOpen lastOpen one two
  | negative isWord digit => exact .negative isWord digit
  | lambda _ inner => exact .lambda inner
  | conditional yesIndent outer noIndent one two three => exact .conditional yesIndent outer noIndent one two three
  | caseOf indent one two => exact .caseOf indent one two
  | letIn indent outer resultIndent one two => exact .letIn indent outer resultIndent one two

/-! ## Beginning and end -/

/-- **A phrase starts and ends with something that shows.** -/
theorem solid (phrase : Phrase commas doc) : Solid doc.chars := by
  have first : ∀ {c : Char} {rest : List Char}, Text.isBlank c = false → Ends rest → Solid (c :: rest) :=
    fun visible ends => ⟨starts_cons visible _, ends.cons _⟩
  have shown : ∀ {c : Char}, Text.isBlank c = false → Solid [c] :=
    fun visible => ⟨starts_cons visible [], ends_singleton visible⟩
  have last : ∀ {c : Char}, Text.isBlank c = false → ∀ before, Ends (before ++ [c]) :=
    fun visible before => (ends_singleton visible).append before
  induction phrase with
  | word isOpen _ isWord => simpa using isWord.solid isOpen
  | sign isSign _ => simpa using solid_of_mem_signs isSign
  | beside _ _ one two => simpa using one.between two [' ']
  | under blank indent _ _ one two => simpa using one.between two (Doc.lineChars blank indent)
  | comma _ one => simpa using one.between (shown (c := ',') (by decide)) []
  | label isWord => simpa using (isWord.solid rfl).between (shown (c := ':') (by decide)) []
  | @round _ inside _ _ => exact first (by decide) (by simpa using last (c := ')') (by decide) inside.chars)
  | noRound => exact first (by decide) (last (by decide) [])
  | @curly _ inside _ _ =>
    exact first (by decide) (by simpa using last (c := '\x7d') (by decide) (' ' :: (inside.chars ++ [' '])))
  | @curlyLines _ inside indent outer _ _ =>
    refine first (by decide) ?_
    simpa using last (c := '\x7d') (by decide)
      (Doc.lineChars false indent ++ (inside.chars ++ Doc.lineChars false outer))
  | emptyCurly => exact first (by decide) (last (by decide) [' '])
  | noCurly => exact first (by decide) (last (by decide) [])
  | @list _ inside _ _ =>
    exact first (by decide) (by simpa using last (c := ']') (by decide) (' ' :: (inside.chars ++ [' '])))
  | emptyList => exact first (by decide) (last (by decide) [' '])
  | noList => exact first (by decide) (last (by decide) [])
  | @range _ _ _ one two _ _ _ _ =>
    refine first (by decide) ?_
    simpa using last (c := ']') (by decide) (' ' :: (one ++ ('.' :: '.' :: (two ++ [' ']))))
  | negative isWord _ => exact first (by decide) (by simpa using (isWord.solid rfl).2)
  | lambda _ inner => exact first (by decide) inner.2
  | @conditional _ test yes no yesIndent outer noIndent _ _ _ _ _ three =>
    have opening : Solid "if".toList := (isWord_keyword .ifWord).solid rfl
    simpa using opening.between three (' ' :: (test.chars ++ (" then".toList ++ (Doc.lineChars false yesIndent ++
      (yes.chars ++ (Doc.lineChars false outer ++ ("else".toList ++ Doc.lineChars false noIndent)))))))
  | @caseOf _ value branches indent _ _ _ two =>
    have opening : Solid "case".toList := (isWord_keyword .caseWord).solid rfl
    simpa using opening.between two (' ' :: (value.chars ++ (" of".toList ++ Doc.lineChars false indent)))
  | @letIn _ locals result indent outer resultIndent _ _ _ two =>
    have opening : Solid "let".toList := (isWord_keyword .letWord).solid rfl
    simpa using opening.between two (Doc.lineChars false indent ++ (locals.chars ++
      (Doc.lineChars false outer ++ ("in".toList ++ Doc.lineChars false resultIndent))))

/-- **What stands on a new line of a phrase shows.** -/
theorem firm (phrase : Phrase commas doc) : doc.Firm := by
  have sign : ∀ {kind : Token.Kind} {c : Char} {rest : Doc}, Text.isBlank c = false → rest.Firm →
      (Doc.word kind [c] rest).Firm :=
    fun visible => .word (solid_of_visible (by simp) (by simpa using visible))
  have keyword : ∀ (word : Keyword) {rest : Doc}, rest.Firm →
      (Doc.word (.keyword word) word.spelling.toList rest).Firm :=
    fun word _ => .word ((isWord_keyword word).solid rfl)
  have shown : ∀ (word : Keyword) (rest : Doc), Starts (Doc.word (.keyword word) word.spelling.toList rest).chars :=
    fun word rest => ((isWord_keyword word).solid rfl).1.append rest.chars
  have starts : ∀ {commas : Bool} {inside : Doc} (rest : Doc), Phrase commas inside → Starts (inside ++ rest).chars := by
    intro commas inside rest phrase
    rw [Doc.chars_append]
    exact phrase.solid.1.append rest.chars
  have ended : Doc.Firm .done := trivial
  induction phrase with
  | word isOpen _ isWord => exact .word (isWord.solid isOpen) ended
  | sign isSign _ => exact .word (solid_of_mem_signs isSign) ended
  | beside _ _ one two => exact one.append two.space
  | under _ _ _ second one two => exact one.append (.line second.solid.1 two)
  | comma _ one => exact one.append (sign (by decide) ended)
  | label isWord => exact .word (isWord.solid rfl) (sign (by decide) ended)
  | round _ inner => exact sign (by decide) (inner.append (sign (by decide) ended))
  | noRound => exact sign (by decide) (sign (by decide) ended)
  | curly _ inner => exact sign (by decide) (.space (inner.append (.space (sign (by decide) ended))))
  | curlyLines _ _ inside inner =>
    refine sign (by decide) (.line (starts _ inside) (inner.append (.line (starts_cons (by decide) _) ?_)))
    exact sign (by decide) ended
  | emptyCurly => exact sign (by decide) (.space (sign (by decide) ended))
  | noCurly => exact sign (by decide) (sign (by decide) ended)
  | list _ inner => exact ⟨.space (inner.append (.space ended)), ended⟩
  | emptyList => exact ⟨.space ended, ended⟩
  | noList => exact ⟨ended, ended⟩
  | range isOpen lastOpen one two =>
    have dots : Solid ['.', '.'] := ⟨starts_cons rfl ['.'], ['.'], '.', rfl, rfl⟩
    refine ⟨.space (.word (one.solid isOpen) (.word dots ?_)), ended⟩
    exact .word (two.solid lastOpen) (.space ended)
  | negative isWord _ => exact sign (by decide) (.word (isWord.solid rfl) ended)
  | lambda _ inner => exact sign (by decide) inner
  | conditional _ _ _ _ yes no one two three =>
    refine keyword .ifWord (.space (one.append (.space (keyword .thenWord (.line (starts _ yes) ?_)))))
    exact two.append (.line (shown .elseWord _) (keyword .elseWord (.line no.solid.1 three)))
  | caseOf _ _ branches one two =>
    exact keyword .caseWord (.space (one.append (.space (keyword .ofWord (.line branches.solid.1 two)))))
  | letIn _ _ _ locals result one two =>
    refine keyword .letWord (.line (starts _ locals) (one.append (.line (shown .inWord _) ?_)))
    exact keyword .inWord (.line result.solid.1 two)

/-- **Moving the text of a phrase in is moving the phrase in.** -/
theorem indent_chars (phrase : Phrase commas doc) :
    (Text.indent (String.ofList doc.chars)).toList = List.replicate 4 ' ' ++ (doc.shift 1).chars := by
  have moved := Doc.deepen_chars phrase.firm []
  simp only [List.append_nil, deepen_nil] at moved
  rw [indent_ofList phrase.solid, moved]
  rfl

/-! ## Lists may hold phrases -/

/-- **The search for a closing square bracket passes over phrases.** -/
theorem passes (phrase : Phrase commas doc) : Passes doc.chars := by
  have spaces : ∀ (blank : Bool) (indent : Nat), Passes (Doc.lineChars blank indent) := by
    intro blank indent
    refine passes_of_inert ?_
    rw [Doc.lineChars, List.all_append, List.all_replicate]
    cases blank <;> simp [isInert]
  have space : Passes [' '] := passes_of_inert rfl
  have signs : ∀ {kind : Token.Kind} {own : List Char}, (kind, own) ∈ signs → Passes own := by
    intro kind own isSign
    have all : signs.all (fun sign => sign.2.all isInert) = true := by decide
    exact passes_of_inert (List.all_eq_true.mp all _ isSign)
  have list : ∀ {inside : List Char}, Passes inside → Passes ('[' :: (inside ++ [']'])) := by
    intro inside passes depth after
    rw [List.cons_append, listLength, List.append_assoc, passes, List.singleton_append, listLength]
    simp only [Option.map_map, List.length_cons, List.length_append, List.length_nil]
    congr 1
    funext length
    simp only [Function.comp_apply]
    omega
  induction phrase with
  | word isOpen _ isWord => simpa using isWord.passes isOpen
  | sign isSign _ => simpa using signs isSign
  | beside _ _ one two => simpa using one.append (space.append two)
  | under blank indent _ _ one two => simpa using one.append ((spaces blank indent).append two)
  | comma _ one => simpa using one.append (passes_of_inert rfl)
  | label isWord => simpa using (isWord.passes rfl).append (passes_of_inert rfl)
  | round _ inner =>
    have opening : Passes ['('] := passes_of_inert rfl
    simpa using opening.append (inner.append (passes_of_inert rfl))
  | noRound => exact passes_of_inert rfl
  | curly _ inner =>
    have opening : Passes ['\x7b', ' '] := passes_of_inert rfl
    simpa using opening.append (inner.append (passes_of_inert rfl))
  | curlyLines indent outer _ inner =>
    have opening : Passes ['\x7b'] := passes_of_inert rfl
    simpa using opening.append ((spaces false indent).append (inner.append
      ((spaces false outer).append (passes_of_inert rfl))))
  | emptyCurly => exact passes_of_inert rfl
  | noCurly => exact passes_of_inert rfl
  | list _ inner => simpa using list (space.append (inner.append space))
  | emptyList => exact list space
  | noList => exact list passes_nil
  | range isOpen lastOpen one two =>
    have dots : Passes ['.', '.'] := passes_of_inert rfl
    simpa using list (space.append ((one.passes isOpen).append (dots.append ((two.passes lastOpen).append space))))
  | negative isWord _ =>
    have minus : Passes ['-'] := passes_of_inert rfl
    simpa using minus.append (isWord.passes rfl)
  | lambda _ inner =>
    have start : Passes ['\\'] := passes_of_inert rfl
    simpa using start.append inner
  | conditional yesIndent outer noIndent _ _ _ one two three =>
    have first : Passes "if ".toList := passes_of_inert rfl
    have second : Passes " then".toList := passes_of_inert rfl
    have third : Passes "else".toList := passes_of_inert rfl
    simpa using first.append (one.append (second.append ((spaces false yesIndent).append (two.append
      ((spaces false outer).append (third.append ((spaces false noIndent).append three)))))))
  | caseOf indent _ _ one two =>
    have first : Passes "case ".toList := passes_of_inert rfl
    have second : Passes " of".toList := passes_of_inert rfl
    simpa using first.append (one.append (second.append ((spaces false indent).append two)))
  | letIn indent outer resultIndent _ _ one two =>
    have first : Passes "let".toList := passes_of_inert rfl
    have second : Passes "in".toList := passes_of_inert rfl
    simpa using first.append ((spaces false indent).append (one.append ((spaces false outer).append
      (second.append ((spaces false resultIndent).append two)))))

/-! ## Words are told apart -/

/-- An opening bracket and a backslash stand before anything. -/
theorem stands_opening (after : List Char) : Doc.Stands .openBracket ['('] after :=
  stands_of_classify (by simp) rfl

theorem stands_backslash (after : List Char) : Doc.Stands .backslash ['\\'] after :=
  stands_of_classify (by simp) rfl

theorem stands_range (after : List Char) : Doc.Stands (.operator .range) ['.', '.'] after :=
  stands_of_classify (by simp) rfl

/-- A list literal stands where nothing goes on with it. -/
theorem stands_list {inside : Doc} (passes : Passes inside.chars) {after : List Char} (gap : isGap after = true) :
    Doc.Stands .literal (Doc.listChars inside) after := by
  have closed : listLength 0 none (inside.chars ++ [']']) = some (inside.chars.length + 1) := by
    rw [passes, listLength]
    simp [Nat.add_comm]
  refine stands_of_isWord (isWord_iff.mpr ⟨'[', inside.chars ++ [']'], rfl, ?_, ?_⟩) rfl (endsWord_of_isGap gap)
  · rw [classify_list, closed]
    rfl
  · rw [classify_list, closed]
    simp

/-- A minus stands before a digit. -/
theorem stands_minus {c : Char} (digit : c.isDigit = true) (after : List Char) :
    Doc.Stands (.operator .minus) ['-'] (c :: after) := by
  refine stands_of_classify (by simp) ?_
  have notMinus : c ≠ '-' := fun equal => absurd (equal ▸ digit) (by decide)
  have notArrow : c ≠ '>' := fun equal => absurd (equal ▸ digit) (by decide)
  rw [List.nil_append, classify, if_neg (by decide), if_neg (by decide), if_neg (by decide)]
  · rfl
  · exact fun _ same => notMinus (List.cons.inj same).1
  · exact fun _ same => notArrow (List.cons.inj same).1

theorem stands_keyword (word : Keyword) {after : List Char} (gap : isGap after = true) :
    Doc.Stands (.keyword word) word.spelling.toList after :=
  stands_of_isWord (isWord_keyword word) rfl (endsWord_of_isGap gap)

/-- What follows a new line does not matter to the word before it. -/
theorem isGap_lineChars (blank : Bool) (indent : Nat) (after : List Char) :
    isGap (Doc.lineChars blank indent ++ after) = true := by
  cases blank <;> rfl

/-- A sign at the end is told apart from what follows. -/
theorem lexes_sign {kind : Token.Kind} {own after : List Char} (isSign : (kind, own) ∈ signs)
    (gap : isGap after = true) : (Doc.word kind own .done).Lexes after :=
  ⟨stands_sign isSign gap, trivial⟩

/-- **Every word of a phrase is told apart from what follows.** -/
theorem lexes (phrase : Phrase commas doc) {after : List Char} (gap : isGap after = true) : doc.Lexes after := by
  have curlyOpening : (Token.Kind.openCurly, ['\x7b']) ∈ signs := by decide
  have curlyClosing : (Token.Kind.closeCurly, ['\x7d']) ∈ signs := by decide
  have roundClosing : (Token.Kind.closeBracket, [')']) ∈ signs := by decide
  induction phrase generalizing after with
  | word isOpen _ isWord => exact ⟨stands_of_isWord isWord isOpen (endsWord_of_isGap gap), trivial⟩
  | sign isSign _ => exact lexes_sign isSign gap
  | beside _ _ one two => exact Doc.lexes_append.mpr ⟨one rfl, two gap⟩
  | under blank indent _ _ one two =>
    refine Doc.lexes_append.mpr ⟨one ?_, two gap⟩
    rw [Doc.chars_line, List.append_assoc]
    exact isGap_lineChars blank indent _
  | comma _ one => exact Doc.lexes_append.mpr ⟨one rfl, lexes_sign (by decide) gap⟩
  | label isWord => exact ⟨stands_of_isWord isWord rfl rfl, lexes_sign (by decide) gap⟩
  | round _ inner => exact ⟨stands_opening _, Doc.lexes_append.mpr ⟨inner rfl, lexes_sign roundClosing gap⟩⟩
  | noRound => exact ⟨stands_opening _, lexes_sign roundClosing gap⟩
  | curly _ inner =>
    exact ⟨stands_sign curlyOpening rfl, Doc.lexes_append.mpr ⟨inner rfl, lexes_sign curlyClosing gap⟩⟩
  | curlyLines _ _ _ inner =>
    exact ⟨stands_sign curlyOpening rfl, Doc.lexes_append.mpr ⟨inner rfl, lexes_sign curlyClosing gap⟩⟩
  | emptyCurly => exact ⟨stands_sign curlyOpening rfl, lexes_sign curlyClosing gap⟩
  | noCurly => exact ⟨stands_sign curlyOpening rfl, lexes_sign curlyClosing gap⟩
  | list inside inner =>
    refine ⟨Doc.lexes_append.mpr ⟨inner rfl, trivial⟩, stands_list ?_ gap, trivial⟩
    have space : Passes [' '] := passes_of_inert rfl
    simpa using space.append (inside.passes.append space)
  | emptyList => exact ⟨trivial, stands_list (passes_of_inert rfl) gap, trivial⟩
  | noList => exact ⟨trivial, stands_list (passes_of_inert rfl) gap, trivial⟩
  | range isOpen lastOpen one two =>
    refine ⟨⟨stands_of_isWord one isOpen rfl, stands_range _, stands_of_isWord two lastOpen rfl, trivial⟩,
      stands_list ?_ gap, trivial⟩
    have space : Passes [' '] := passes_of_inert rfl
    have dots : Passes ['.', '.'] := passes_of_inert rfl
    simpa using space.append ((one.passes isOpen).append (dots.append ((two.passes lastOpen).append space)))
  | negative isWord digit =>
    exact ⟨stands_minus digit _, stands_of_isWord isWord rfl (endsWord_of_isGap gap), trivial⟩
  | lambda _ inner => exact ⟨stands_backslash _, inner gap⟩
  | conditional yesIndent outer noIndent _ _ _ one two three =>
    refine ⟨stands_keyword .ifWord rfl, Doc.lexes_append.mpr ⟨one rfl, stands_keyword .thenWord rfl,
      Doc.lexes_append.mpr ⟨two rfl, stands_keyword .elseWord rfl, three gap⟩⟩⟩
  | caseOf indent _ _ one two =>
    exact ⟨stands_keyword .caseWord rfl, Doc.lexes_append.mpr ⟨one rfl, stands_keyword .ofWord rfl, two gap⟩⟩
  | letIn indent outer resultIndent _ _ one two =>
    exact ⟨stands_keyword .letWord rfl, Doc.lexes_append.mpr ⟨one rfl, stands_keyword .inWord rfl, two gap⟩⟩

/-! ## Brackets and reserved words -/

/-- **The words of a phrase are balanced.** -/
theorem balanced (phrase : Phrase commas doc) (position : Position) : Balanced commas (doc.tokens position) := by
  induction phrase generalizing position with
  | word _ plain _ => exact .plain plain
  | sign _ plain => exact .plain plain
  | beside _ _ one two => simpa [Doc.tokens] using (one position).append (two _)
  | under _ _ _ _ one two => simpa [Doc.tokens] using (one position).append (two _)
  | comma _ one => simpa [Doc.tokens] using (one position).append (.comma rfl)
  | label _ => exact .cons rfl (.plain rfl)
  | round _ inner => simpa [Doc.tokens] using Balanced.round rfl rfl (inner _)
  | noRound => exact .emptyRound rfl rfl
  | curly _ inner => simpa [Doc.tokens] using Balanced.curly rfl rfl (inner _)
  | curlyLines _ _ _ inner => simpa [Doc.tokens] using Balanced.curly rfl rfl (inner _)
  | emptyCurly => exact .emptyCurly rfl rfl
  | noCurly => exact .emptyCurly rfl rfl
  | list _ _ => exact .plain rfl
  | emptyList => exact .plain rfl
  | noList => exact .plain rfl
  | range _ _ _ _ => exact .plain rfl
  | negative _ _ => exact .cons rfl (.plain rfl)
  | lambda _ inner => exact .cons rfl (inner _)
  | conditional _ _ _ _ _ _ one two three =>
    simpa [Doc.tokens] using Balanced.conditional rfl rfl rfl (one _) (two _) (three _)
  | caseOf _ _ _ one two => simpa [Doc.tokens] using Balanced.caseOf rfl rfl (one _) (two _)
  | letIn _ _ _ _ _ one two => simpa [Doc.tokens] using Balanced.letIn rfl rfl (one _) (two _)

end Phrase

end DerwLang
