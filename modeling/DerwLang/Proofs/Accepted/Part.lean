/-
**What is read comes from the tokens.**

Readers and cuts hand on the tokens of their window and make none up. So what is known of all tokens of a window is known of
the windows that it is cut into, and of what a reader leaves. `Grammatical` collects what is known of the tokens that the
grammar sees: they are words, and none is a comment or white space.
-/

import DerwLang.Proofs.Layout.Comment
import DerwLang.Proofs.Layout.Sound
import DerwLang.Proofs.Lexing.Position
import DerwLang.Proofs.Rules.Step

namespace DerwLang

open Grammar Layout Lexeme

/-! ## Tokens -/

/-- A token that keeps its text is a word. -/
def Token.Genuine (token : Token) : Prop :=
  isTextKind token.kind = true → IsWord token.kind token.body.toList

/-- **The tokens of a source are genuine.** -/
theorem genuine_tokenizeAt {source : String} {line column : Nat} {token : Token}
    (member : token ∈ tokenizeAt source line column) : token.Genuine := by
  intro _
  obtain ⟨lexeme, among, kind, body⟩ := Token.mem_place member
  rw [kind, body, String.toList_ofList]
  exact isWord_of_mem_scan among

/-! ## Tokens of the grammar -/

/-- The tokens are words that the grammar sees. -/
def Grammatical (tokens : List Token) : Prop :=
  ∀ token ∈ tokens, token.Genuine ∧ token.isTrivia = false

theorem grammatical_cons {token : Token} {tokens : List Token} :
    Grammatical (token :: tokens) ↔ (token.Genuine ∧ token.isTrivia = false) ∧ Grammatical tokens :=
  List.forall_mem_cons

theorem Grammatical.tail {tokens : List Token} (grammatical : Grammatical tokens) : Grammatical tokens.tail :=
  fun token member => grammatical token (List.mem_of_mem_tail member)

theorem grammatical_significant {tokens : List Token} (genuine : ∀ token ∈ tokens, token.Genuine) :
    Grammatical (Token.significant tokens) := by
  intro token member
  obtain ⟨among, seen⟩ := List.mem_filter.mp member
  exact ⟨genuine token among, by simpa using seen⟩

theorem Grammatical.significant {tokens : List Token} (grammatical : Grammatical tokens) :
    Token.significant tokens = tokens :=
  List.filter_eq_self.mpr fun token member => by simp [(grammatical token member).2]

/-- What has the kind of a text between quotes starts with the quote. -/
theorem quote_of_classify {c quote : Char} {rest : List Char}
    (kind : (Lexeme.classify c rest).1 = .string ∧ quote = '"' ∨ (Lexeme.classify c rest).1 = .formatString ∧ quote = '\x60') :
    c = quote := by
  have named : ∀ word, Lexeme.wordKind word ≠ .string ∧ Lexeme.wordKind word ≠ .formatString := by
    intro word
    rw [Lexeme.wordKind]
    split
    · simp
    · split <;> simp
  have isOpen : isOpenKind (Lexeme.classify c rest).1 = true := by
    rcases kind with ⟨same, -⟩ | ⟨same, -⟩ <;> simp [same, isOpenKind]
  have visible := not_blank_of_isOpenKind isOpen
  cases digit : c.isDigit with
  | true =>
    simp [Lexeme.classify_number visible digit] at kind
  | false =>
    cases starts : Lexeme.startsName c with
    | true =>
      rw [Lexeme.classify_name visible digit starts] at kind
      simp [named] at kind
    | false =>
      rcases start_of_isOpenKind isOpen with isDigit | isName | rfl | rfl | rfl
      · simp [digit] at isDigit
      · simp [starts] at isName
      · rw [classify_quote] at kind
        cases closed : (Lexeme.quotedLength '"' rest).1 <;> simp [closed] at kind
        exact kind.symm
      · rw [classify_backquote] at kind
        cases closed : (Lexeme.quotedLength '\x60' rest).1 <;> simp [closed] at kind
        exact kind.symm
      · rw [classify_list] at kind
        cases closed : Lexeme.listLength 0 none rest <;> simp [closed] at kind

/-- A text between quotes is a quote, what stands between, and the same quote. -/
theorem IsWord.between {kind : Token.Kind} {quote : Char} {own : List Char} (isWord : IsWord kind own)
    (isQuote : kind = .string ∧ quote = '"' ∨ kind = .formatString ∧ quote = '\x60') :
    ∃ inner, own = quote :: (inner ++ [quote]) := by
  obtain ⟨c, rest, rfl, same, all⟩ := isWord_iff.mp isWord
  obtain rfl : c = quote := quote_of_classify (by rw [same]; exact isQuote)
  have closed : Lexeme.quotedLength c rest = (true, rest.length) := by
    refine Prod.ext ?_ (Nat.le_antisymm (quotedLength_le _ _) ?_)
    · rcases isQuote with ⟨rfl, rfl⟩ | ⟨rfl, rfl⟩
      · rw [classify_quote] at same
        cases found : (Lexeme.quotedLength '"' rest).1 <;> simp [found] at same
        rfl
      · rw [classify_backquote] at same
        cases found : (Lexeme.quotedLength '\x60' rest).1 <;> simp [found] at same
        rfl
    · rcases isQuote with ⟨rfl, rfl⟩ | ⟨rfl, rfl⟩
      · rwa [classify_quote] at all
      · rwa [classify_backquote] at all
  obtain ⟨inner, rfl⟩ := List.getLast?_eq_some_iff.mp (getLast?_of_quotedLength closed)
  exact ⟨inner, rfl⟩

namespace Token.Genuine

variable {token : Token}

/-- A name is a name. -/
theorem name (genuine : token.Genuine) (isName : token.kind = .identifier) : Sound.Name token.body := by
  have isWord := genuine (by rw [isName]; rfl)
  rwa [isName] at isWord

theorem literal (genuine : token.Genuine) (isLiteral : token.kind = .literal) : IsWord .literal token.body.toList := by
  have isWord := genuine (by rw [isLiteral]; rfl)
  rwa [isLiteral] at isWord

/-- What stands between the quotes of a text makes the text again. -/
theorem quoted (genuine : token.Genuine) (isString : token.kind = .string) : Sound.Quoted (unquote token.body) := by
  have isWord := genuine (by rw [isString]; rfl)
  rw [isString] at isWord
  obtain ⟨inner, same⟩ := isWord.between (.inl ⟨rfl, rfl⟩)
  have whole : (Text.quoted (unquote token.body)).toList = token.body.toList := by
    simp [Text.quoted, unquote, same]
  rwa [Sound.Quoted, whole]

theorem backquoted (genuine : token.Genuine) (isFormatString : token.kind = .formatString) :
    Sound.Backquoted (unquote token.body) := by
  have isWord := genuine (by rw [isFormatString]; rfl)
  rw [isFormatString] at isWord
  obtain ⟨inner, same⟩ := isWord.between (.inr ⟨rfl, rfl⟩)
  have whole : (Text.backquoted (unquote token.body)).toList = token.body.toList := by
    simp [Text.backquoted, unquote, same]
  rwa [Sound.Backquoted, whole]

end Token.Genuine

/-! ## Cuts -/

namespace Grammatical

variable {tokens : List Token} (grammatical : Grammatical tokens)

include grammatical

theorem cut {cut : Cut} (whole : cut.all = tokens) :
    Grammatical cut.inside ∧ (cut.token.Genuine ∧ cut.token.isTrivia = false) ∧ Grammatical cut.after :=
  forall_cut whole grammatical

theorem splitFrom (separator : Token.Kind) (depth before : Nat) :
    ∀ window ∈ Window.splitFrom separator depth before tokens, Grammatical window.tokens :=
  forall_windows (separated_splitFrom separator depth before tokens).sublist grammatical

/-- The names in front of grammatical tokens are sound, and the other tokens grammatical. -/
theorem names {own rest : List Token} (whole : tokens = own ++ rest) (areNames : ∀ token ∈ own, token.kind = .identifier) :
    (∀ name ∈ own.map Token.body, Sound.Name name) ∧ Grammatical rest := by
  rw [whole] at grammatical
  obtain ⟨first, later⟩ := List.forall_mem_append.mp grammatical
  exact ⟨List.forall_mem_map.mpr fun token member => (first token member).1.name (areNames token member), later⟩

end Grammatical

theorem Grammatical.takeNames {window : Window} (grammatical : Grammatical window.tokens) :
    (∀ name ∈ window.takeNames.1, Sound.Name name) ∧ Grammatical window.takeNames.2.tokens := by
  obtain ⟨own, whole, names, areNames⟩ := tokens_of_takeNames window
  rw [← names]
  exact grammatical.names whole areNames

theorem Grammatical.expect {window ending : Window} {kind : Token.Kind} {place : Requirement} {token : Token}
    (grammatical : Grammatical window.tokens) (read : window.expect kind place = .ok (token, ending)) :
    token.kind = kind ∧ token.Genuine ∧ Grammatical ending.tokens := by
  obtain ⟨tokens, same⟩ := tokens_of_expect read
  rw [tokens] at grammatical
  obtain ⟨first, later⟩ := grammatical_cons.mp grammatical
  exact ⟨same, first.1, later⟩

end DerwLang
