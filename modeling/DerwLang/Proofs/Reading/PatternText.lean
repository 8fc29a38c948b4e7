/-
**Patterns are read back from their text.**

A pattern that was read of lexed tokens is sound, as each of the tokens is one of those that patterns are written with. At no
level its text spells it word for word, the texts between its quotes included, so reading the text gives the pattern again.
Main facts:

* `sound_pattern_lexed`: what is read of tokens that were lexed is sound;
* `pattern_text_of_pattern`: a pattern that was read is read again from its text.
-/

import DerwLang.Proofs.Accepted.Type
import DerwLang.Proofs.Reading.Module

namespace DerwLang

open Grammar Layout

/-- **A pattern that was read of lexed tokens is sound**, the tokens being those of one source or of many. -/
theorem sound_pattern_lexed {window : Window}
    (lexed : ∀ token ∈ window.tokens, ∃ source line column, token ∈ tokenizeAt source line column) {shape : Pattern}
    (read : Grammar.pattern window = .ok shape) : Sound.Pattern shape := by
  refine sound_pattern (fun token member => ⟨?_, ?_⟩) read
  · obtain ⟨source, line, column, among⟩ := lexed token member
    exact genuine_tokenizeAt among
  · exact Token.not_trivia_of_inPattern (kinds_pattern read token member)

/-! ## Patterns at no level -/

namespace Settled

theorem quoted_zero (text : String) : quoted 0 text = text := by
  simp [quoted, moved, Grammar.unquote, Text.quoted]

theorem backquoted_zero (text : String) : backquoted 0 text = text := by
  simp [backquoted, moved, Grammar.unquote, Text.backquoted]

/-- At no level a part of a list pattern stays as it is. -/
theorem listPart_zero (part : ListPart) : listPart 0 part = part := by
  cases part with
  | string text => exact congrArg ListPart.string (quoted_zero text)
  | formatString text => exact congrArg ListPart.formatString (backquoted_zero text)
  | _ => rfl

/-- **At no level a pattern stays as it is**, however many lines the texts in it go over. -/
theorem pattern_zero (shape : Pattern) : pattern 0 shape = shape := by
  cases shape with
  | string text => exact congrArg Pattern.string (quoted_zero text)
  | formatString text => exact congrArg Pattern.formatString (backquoted_zero text)
  | list parts => exact congrArg Pattern.list (map_eq_self.mpr fun part _ => listPart_zero part)
  | _ => rfl

end Settled

/-! ## The text of a pattern -/

/-- The text of a sound pattern is read as the pattern. -/
theorem Written.pattern_text {shape : Pattern} (sound : Sound.Pattern shape) (before : Nat) :
    Grammar.pattern ⟨before, Token.significant (tokenize (Canonical.pattern shape))⟩ = .ok shape := by
  have phrase : Phrase true (Written.pattern shape) := phrase_pattern sound
  have read := (read_pattern sound).of_text phrase (chars_pattern shape) before
  rwa [Settled.pattern_zero] at read

/-- **A pattern that was read of lexed tokens is read again of its text.** -/
theorem pattern_text_of_pattern {window : Window}
    (lexed : ∀ token ∈ window.tokens, ∃ source line column, token ∈ tokenizeAt source line column) {shape : Pattern}
    (read : Grammar.pattern window = .ok shape) (before : Nat) :
    Grammar.pattern ⟨before, Token.significant (tokenize (Canonical.pattern shape))⟩ = .ok shape :=
  Written.pattern_text (sound_pattern_lexed lexed read) before

/-- Parts of every kind: a tag with its fields, a text with an escape, a format string over two lines, a name and the end. -/
theorem pattern_text_of_pattern_parts :
    let window : Window := ⟨1, Token.significant (tokenize
      "Pair \x7bleft,right,\x7d::None :: \"say \\\"hi\\\"\" :: \x60a\n$\x7bb\x7d\x60 ::\x7b-more-\x7d rest::[ ]")⟩
    let shape := Pattern.list [.tag ⟨"Pair", ["left", "right"]⟩, .tag ⟨"None", []⟩, .string "say \\\"hi\\\"",
      .formatString "a\n$\x7bb\x7d", .name "rest", .emptyList]
    (∀ token ∈ window.tokens, ∃ source line column, token ∈ tokenizeAt source line column) ∧
    Grammar.pattern window = .ok shape ∧
    Canonical.pattern shape =
      "Pair \x7b left, right \x7d :: None \x7b\x7d :: \"say \\\"hi\\\"\" :: \x60a\n$\x7bb\x7d\x60 :: rest :: []" ∧
    Grammar.pattern ⟨7, Token.significant (tokenize (Canonical.pattern shape))⟩ = .ok shape := by
  intro window shape
  have lexed : ∀ token ∈ window.tokens, ∃ source line column, token ∈ tokenizeAt source line column :=
    fun _ member => ⟨_, _, _, Token.of_mem_significant member⟩
  have read : Grammar.pattern window = .ok shape := by
    decide
  exact ⟨lexed, read, by decide, pattern_text_of_pattern lexed read 7⟩

end DerwLang
