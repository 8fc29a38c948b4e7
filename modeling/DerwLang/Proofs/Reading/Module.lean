/-
**Written modules are read back.**

The declarations of a module stand below each other, comments among them. Each is told apart from the others by where it
starts, and comments are no part of the grammar. Main facts:

* `parse_text`: the text of sound declarations is read without errors, as the settled declarations;
* `parseExpression_text`: so is the text of an expression.
-/

import DerwLang.Grammar.Module
import DerwLang.Proofs.Layout.Comment
import DerwLang.Proofs.Reading.Declaration

namespace DerwLang

open Grammar Layout

/-! ## The words of modules -/

namespace Written

open Doc

/-- A declaration is told apart from what stands on other lines. -/
theorem lexes_block {declaration : Block} (sound : declaration.Everywhere Sound.checks) {after : List Char}
    (ends : ∀ c ∈ after.head?, c = '\n') : (block declaration).Lexes after := by
  have gap : isGap after = true := by
    cases after with
    | nil => rfl
    | cons c rest => simp [isGap, ends c rfl]
  have phrased : (∀ text, declaration ≠ .comment text ∧ declaration ≠ .multilineComment text) →
      (block declaration).Lexes after := fun other => ((fits_block sound).2 other).lexes gap
  cases declaration with
  | comment text => exact ⟨stands_comment sound.here ends, trivial⟩
  | multilineComment text => exact ⟨stands_multilineComment sound.here after, trivial⟩
  | _ => exact phrased fun text => by simp

theorem lexes_following {rest : List Block} (sound : ∀ declaration ∈ rest, declaration.Everywhere Sound.checks)
    (previous : Block) {after : List Char} (ends : ∀ c ∈ after.head?, c = '\n') :
    (following previous rest).Lexes after ∧ ∀ c ∈ ((following previous rest).chars ++ after).head?, c = '\n' := by
  induction rest generalizing previous with
  | nil => exact ⟨trivial, ends⟩
  | cons next more step =>
    rw [List.forall_mem_cons] at sound
    obtain ⟨later, feed⟩ := step sound.2 next
    refine ⟨lexes_append.mpr ⟨lexes_block sound.1 feed, later⟩, ?_⟩
    rw [following]
    cases Canonical.isImport previous && Canonical.isImport next <;> simp [lineChars]

/-- **Every word of declarations is told apart from what follows.** -/
theorem lexes_declarations {declarations : List Block}
    (sound : ∀ declaration ∈ declarations, declaration.Everywhere Sound.checks) {after : List Char}
    (ends : ∀ c ∈ after.head?, c = '\n') : (Written.declarations declarations).Lexes after := by
  cases declarations with
  | nil => trivial
  | cons first rest =>
    rw [List.forall_mem_cons] at sound
    obtain ⟨later, feed⟩ := lexes_following sound.2 first ends
    exact lexes_append.mpr ⟨lexes_block sound.1 feed, later⟩

/-- Declarations after an earlier one, with whether an empty line stands before each. -/
def below : Block → List Block → List (Bool × Doc)
  | _, [] => []
  | previous, next :: rest => (!(Canonical.isImport previous && Canonical.isImport next), block next) :: below next rest

theorem map_below (previous : Block) (rest : List Block) : (below previous rest).map Prod.snd = rest.map block := by
  induction rest generalizing previous with
  | nil => rfl
  | cons next more step => rw [below, List.map_cons, List.map_cons, step]

/-- The declarations of a module are stacked. -/
theorem declarations_eq_stacked (first : Block) (rest : List Block) :
    declarations (first :: rest) = stacked (block first) (below first rest) := by
  rw [declarations]
  induction rest generalizing first with
  | nil => rw [following, append_done]; rfl
  | cons next more step => rw [following, below, stacked, step]; rfl

/-! ## Modules -/

/-- Without comments the tokens are read as the grammar has it. -/
theorem blockOfTokens_significant {tokens : List Token} (all : Token.significant tokens = tokens) (some_ : tokens ≠ []) :
    blockOfTokens tokens = some <$> Grammar.block ⟨lineOf tokens, tokens⟩ := by
  unfold blockOfTokens
  rw [all]
  cases tokens with
  | nil => exact absurd rfl some_
  | cons token rest =>
    cases rest with
    | nil =>
      obtain ⟨kind, body, row, column⟩ := token
      have seen : kind.isTrivia = false := by simpa [Token.significant, Token.isTrivia] using all
      cases kind with
      | comment => exact absurd seen (by decide)
      | multilineComment => exact absurd seen (by decide)
      | _ => rfl
    | cons next more => rfl

/-- **The words of a declaration are read back**, comments included. -/
theorem read_blockOfTokens {declaration : Block} (sound : declaration.Everywhere Sound.checks) {window : Window}
    (holds : Holds 0 window (block declaration)) :
    blockOfTokens window.tokens = .ok (some (Settled.block 0 declaration)) := by
  obtain ⟨position, before, indented, rfl⟩ := holds
  rw [shift_zero]
  have read : (∀ text, declaration ≠ .comment text ∧ declaration ≠ .multilineComment text) → ¬ IsComment declaration →
      blockOfTokens ((block declaration).tokens position) = .ok (some (Settled.block 0 declaration)) := by
    intro other noComment
    have phrase := (fits_block sound).2 other
    obtain ⟨token, rest, same, -, -⟩ := tokens_of_starts phrase.solid.1 0 position
    rw [shift_zero] at same
    rw [blockOfTokens_significant (phrase.balanced position).significant (by rw [same]; exact List.cons_ne_nil token rest),
      read_block sound noComment _ indented]
    rfl
  cases declaration with
  | comment text => simp [block, Settled.block, single, Doc.tokens, blockOfTokens]
  | multilineComment text => simp [block, Settled.block, single, Doc.tokens, blockOfTokens]
  | _ => exact read (fun text => by simp) (fun isComment => isComment)

theorem map_of_forall₂ {α β γ : Type} {r : α → β → Prop} {f : α → γ} {g : β → γ} {firsts : List α} {seconds : List β}
    (related : List.Forall₂ r firsts seconds) (each : ∀ second ∈ seconds, ∀ first, r first second → f first = g second) :
    firsts.map f = seconds.map g := by
  induction related with
  | nil => rfl
  | cons holds _ step =>
    rw [List.forall_mem_cons] at each
    rw [List.map_cons, List.map_cons, each.1 _ holds, step each.2]

theorem visible_feeds {after : List Char} (feeds : ∀ c ∈ after, c = '\n') (position : Position) :
    visible position after = [] := by
  induction after generalizing position with
  | nil => rfl
  | cons c rest step =>
    rw [List.forall_mem_cons] at feeds
    rw [visible_blank (by rw [feeds.1]; decide), step feeds.2]

/-- **The text of declarations is read as the settled declarations**, whatever line feeds follow it. -/
theorem readBlocks_text {declarations : List Block}
    (sound : ∀ declaration ∈ declarations, declaration.Everywhere Sound.checks) {source : String} {after : List Char}
    (feeds : ∀ c ∈ after, c = '\n') (same : source.toList = (Canonical.declarations declarations).toList ++ after) :
    readBlocks source = declarations.map fun declaration => .ok (some (Settled.block 0 declaration)) := by
  have words : ((tokenize source).filter fun token => token.kind != .whitespace) =
      (Written.declarations declarations).tokens ⟨1, 1⟩ := by
    have lexes := lexes_declarations sound (fun c member => feeds c (List.mem_of_mem_head? member))
    have seen := visible_chars lexes ⟨1, 1⟩
    rw [chars_declarations sound, ← same, visible_feeds feeds, List.append_nil] at seen
    exact seen
  rw [readBlocks, blockTokens, List.map_map, words]
  cases declarations with
  | nil => rfl
  | cons first rest =>
    rw [List.forall_mem_cons] at sound
    have others : ∀ other ∈ below first rest, other.2.Declares := by
      rw [← List.forall_mem_map (P := Doc.Declares) (f := Prod.snd), map_below, List.forall_mem_map]
      exact fun declaration member => declares_block (sound.2 declaration member)
    have held := holds_blocks (declares_block sound.1) others (show (⟨1, 1⟩ : Position).column = 4 * 0 + 1 from rfl) 1
    rw [shift_zero, map_below, ← List.map_cons, ← declarations_eq_stacked] at held
    rw [List.forall₂_map_right_iff] at held
    exact map_of_forall₂ held fun declaration member window holds =>
      read_blockOfTokens (List.forall_mem_cons.mpr sound declaration member) holds

/-- **The text of a module is read without errors, as the settled module**, whatever line feeds follow it. -/
theorem parse_text {module : Module} (sound : module.Everywhere Sound.checks) {source : String} {after : List Char}
    (feeds : ∀ c ∈ after, c = '\n') (same : source.toList = (Canonical.module module).toList ++ after) :
    parse source = ⟨"Main", module.body.map (Settled.block 0), []⟩ := by
  have errors : ∀ declarations : List Block,
      (declarations.map fun declaration => (Except.ok (some (Settled.block 0 declaration)) : Parsed (Option Block))).filterMap
        errorOf? = [] := by
    intro declarations
    rw [List.filterMap_map]
    exact List.filterMap_eq_nil_iff.mpr fun _ _ => rfl
  rw [parse, parseModule, readBlocks_text sound feeds same, errors, List.filterMap_map]
  congr 1
  exact congrFun List.filterMap_eq_map _

end Written

/-! ## Texts -/

theorem significant_filter (tokens : List Token) :
    Token.significant (tokens.filter fun token => token.kind != .whitespace) = Token.significant tokens := by
  rw [Token.significant, Token.significant, List.filter_filter]
  refine List.filter_congr fun token _ => ?_
  cases kind : token.kind <;> simp [Token.isTrivia, Token.Kind.isTrivia, Token.Kind.isComment, kind]

/-- The text of a phrase consists of the words of the phrase, and of white space. -/
theorem significant_phrase {commas : Bool} {doc : Doc} {text : String} (phrase : Phrase commas doc)
    (spelled : doc.chars = text.toList) : Token.significant (tokenize text) = doc.tokens ⟨1, 1⟩ := by
  have lexes : doc.Lexes [] := phrase.lexes rfl
  have seen := Doc.visible_chars lexes ⟨1, 1⟩
  rw [List.append_nil, spelled] at seen
  rw [← (phrase.balanced ⟨1, 1⟩).significant, ← significant_filter]
  exact congrArg Token.significant (seen.trans (List.append_nil _))

/-- What is read wherever it stands is read of its text. -/
theorem Reads.of_text {α : Type} {read : Window → Parsed α} {doc : Doc} {value : Nat → α} (reads : Reads read doc value)
    {commas : Bool} {text : String} (phrase : Phrase commas doc) (spelled : doc.chars = text.toList) (before : Nat) :
    read ⟨before, Token.significant (tokenize text)⟩ = .ok (value 0) := by
  have indented : Indented 0 ⟨1, 1⟩ := Nat.zero_lt_one
  have read := reads 0 before ⟨1, 1⟩ indented
  rwa [Doc.shift_zero, ← significant_phrase phrase spelled] at read

/-- **The text of an expression is read back.** -/
theorem Written.parseExpression_text {item : Expression} (sound : item.Everywhere Sound.checks) :
    parseExpression (Canonical.expression item) = .ok (Settled.expression 0 item) := by
  obtain ⟨text, phrase⟩ := fits_expression sound
  exact (reads_expression sound).of_text phrase text _

end DerwLang
