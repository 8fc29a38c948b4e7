/-
**The leaves of windows, and how patterns are read.**

A cut hands on all its tokens, and so all their leaves: a window is the windows it is cut into, with the separator between.
Patterns are read from windows whose leaves spell them. Main facts:

* `leavesOf_separated`: windows have the leaves of what they are cut into;
* `spells_pattern`: a window that is read as a pattern spells it.
-/

import DerwLang.Proofs.Accepted.Type
import DerwLang.Proofs.Leaves.Outline

namespace DerwLang.Leaves

open Grammar Layout

/-! ## Windows -/

theorem Worded.cut {tokens : List Token} (worded : Worded tokens) {cut : Cut} (whole : cut.all = tokens) :
    Worded cut.inside ∧ IsWord cut.token.kind cut.token.body.toList ∧ Worded cut.after := by
  obtain ⟨inside, own, after⟩ := forall_cut whole worded
  exact ⟨inside, own.1, after⟩

/-- The leaves of a cut, at a token that is spelled in one way. -/
theorem leavesOf_cut {tokens : List Token} (worded : Worded tokens) {kind : Token.Kind} {cut : Cut}
    (cuts : CutsAt kind tokens cut) (fixed : spelling kind ≠ "") :
    leavesOf tokens = leavesOf cut.inside ++ (leaves (spelling kind).toList ++ leavesOf cut.after) := by
  have isWord := (worded.cut cuts.whole).2.1
  rw [← cuts.whole, Cut.all, leavesOf_append, leavesOf_cons, body_of_kind isWord cuts.kind fixed]

theorem Worded.splitFrom {tokens : List Token} (worded : Worded tokens) (separator : Token.Kind) (depth before : Nat) :
    ∀ window ∈ Window.splitFrom separator depth before tokens, Worded window.tokens :=
  forall_windows (separated_splitFrom separator depth before tokens).sublist worded

/-- **Windows have the leaves of what they are cut into**, with those of the separator between. -/
theorem leavesOf_separated {separator : Token.Kind} (fixed : spelling separator ≠ "") {tokens : List Token}
    {windows : List Window} (separated : Separated separator tokens windows) (worded : Worded tokens) :
    leavesOf tokens = List.intercalate (leaves (spelling separator).toList)
      (windows.map fun window => leavesOf window.tokens) := by
  induction separated with
  | single => simp
  | @cut before cut windows isSeparator later step =>
    obtain ⟨window, more, rfl⟩ := List.exists_cons_of_ne_nil later.ne_nil
    rw [leavesOf_cut worded ⟨rfl, isSeparator⟩ fixed, step (worded.cut rfl).2.2]
    simp [intercalate_cons]

/-! ## Tags -/

theorem leavesOf_eq (tokens : List Token) : leavesOf tokens = leavesOfTexts (tokens.map Token.body) := by
  rw [leavesOf, leavesOfTexts, List.flatMap_map]

theorem spells_patternFields {tokens : List Token} {names : List String} {ending : Window} (worded : Worded tokens)
    (rule : PatternFieldsRule tokens names ending) :
    ∃ own texts, tokens = own ++ ending.tokens ∧ own.map Token.body = texts ++ ["\x7d"] ∧ SpellsFields names texts := by
  induction rule with
  | @none token _ closes =>
    have close := body_of_kind (worded_cons.mp worded).1.1 closes (by decide)
    exact ⟨[token], [], rfl, by simp [close, spelling], .none⟩
  | @last token next _ _ closes =>
    have close := body_of_kind (worded_cons.mp (worded_cons.mp worded).2).1.1 closes (by decide)
    exact ⟨[token, next], [token.body], rfl, by simp [close, spelling], .last _⟩
  | @more token next _ _ _ _ isComma _ step =>
    obtain ⟨second, later⟩ := worded_cons.mp (worded_cons.mp worded).2
    obtain ⟨own, texts, rfl, bodies, spells⟩ := step later
    have comma := body_of_kind second.1 isComma (by decide)
    exact ⟨token :: next :: own, _, rfl, by simp [bodies, comma, spelling], .more _ spells⟩

theorem spells_tagPattern {tag : String} {window ending : Window} {shape : TagPattern}
    (worded : Worded window.tokens) (rule : TagPatternRule tag window shape ending) :
    ∃ own, window.tokens = own ++ ending.tokens ∧ SpellsTag shape (tag :: own.map Token.body) := by
  cases rule with
  | bare => exact ⟨[], rfl, .bare tag⟩
  | @braced token _ _ _ tokens opens fields =>
    rw [tokens] at worded
    obtain ⟨first, later⟩ := worded_cons.mp worded
    obtain ⟨own, texts, rfl, bodies, spells⟩ := spells_patternFields later fields
    refine ⟨token :: own, tokens, ?_⟩
    rw [List.map_cons, bodies, body_of_kind first.1 opens (by decide)]
    exact .braced tag spells

/-- The texts of a tag that has its window to itself, with what belongs to it. -/
theorem spells_finishedTag {token : Token} {rest : List Token} {line : Nat} {shape : TagPattern} {ending : Window}
    (worded : Worded (token :: rest)) (rule : TagPatternRule token.body ⟨line, rest⟩ shape ending)
    (ended : ending.tokens = []) :
    ∃ texts, SpellsTag shape texts ∧ leavesOf (token :: rest) = leavesOfTexts texts := by
  obtain ⟨own, whole, spells⟩ := spells_tagPattern (worded_cons.mp worded).2 rule
  obtain rfl : rest = own := by rw [← List.append_nil own, ← ended, ← whole]
  exact ⟨_, spells, by rw [leavesOf_eq, List.map_cons]⟩

/-! ## Patterns -/

theorem leavesOf_string {token : Token} (worded : Worded [token]) (isString : token.kind = .string) :
    leavesOf [token] = leavesOfTexts [Text.quoted (unquote token.body)] := by
  simp [leavesOf_eq, quoted_unquote (worded_cons.mp worded).1.1 isString]

theorem leavesOf_formatString {token : Token} (worded : Worded [token]) (isFormatString : token.kind = .formatString) :
    leavesOf [token] = leavesOfTexts [Text.backquoted (unquote token.body)] := by
  simp [leavesOf_eq, backquoted_unquote (worded_cons.mp worded).1.1 isFormatString]

theorem leavesOf_emptyList {token : Token} (worded : Worded [token]) (isEmpty : isEmptyList token = true) :
    leavesOf [token] = leavesOfTexts ["[", "]"] := by
  simp [leavesOf, leavesOfTexts, leaves_of_isEmptyList (worded_cons.mp worded).1.1 isEmpty]

theorem spells_singlePattern {window : Window} {shape : Pattern} (worded : Worded window.tokens)
    (rule : SinglePatternRule window shape) :
    ∃ texts, Spells shape texts ∧ leavesOf window.tokens = leavesOfTexts texts := by
  cases rule with
  | string tokens isString =>
    rw [tokens] at worded ⊢
    exact ⟨_, .string _, leavesOf_string worded isString⟩
  | formatString tokens isFormatString =>
    rw [tokens] at worded ⊢
    exact ⟨_, .formatString _, leavesOf_formatString worded isFormatString⟩
  | emptyList tokens _ isEmpty =>
    rw [tokens] at worded ⊢
    exact ⟨_, .emptyList, leavesOf_emptyList worded isEmpty⟩
  | otherwise tokens isDefault =>
    rw [tokens] at worded ⊢
    exact ⟨_, .otherwise, by
      simp [leavesOf_eq, body_of_kind (worded_cons.mp worded).1.1 isDefault (by decide), spelling, Keyword.spelling]⟩
  | tag tokens _ _ tagged ended =>
    rw [tokens] at worded ⊢
    obtain ⟨texts, spells, same⟩ := spells_finishedTag worded tagged ended
    exact ⟨texts, .tag spells, same⟩

theorem spells_listPart {window : Window} {part : ListPart} (worded : Worded window.tokens)
    (rule : ListPartRule window part) :
    ∃ texts, SpellsPart part texts ∧ leavesOf window.tokens = leavesOfTexts texts := by
  cases rule with
  | string tokens isString =>
    rw [tokens] at worded ⊢
    exact ⟨_, .string _, leavesOf_string worded isString⟩
  | formatString tokens isFormatString =>
    rw [tokens] at worded ⊢
    exact ⟨_, .formatString _, leavesOf_formatString worded isFormatString⟩
  | emptyList tokens _ isEmpty =>
    rw [tokens] at worded ⊢
    exact ⟨_, .emptyList, leavesOf_emptyList worded isEmpty⟩
  | tag tokens _ _ tagged ended =>
    rw [tokens] at worded ⊢
    obtain ⟨texts, spells, same⟩ := spells_finishedTag worded tagged ended
    exact ⟨texts, .tag spells, same⟩
  | name tokens =>
    rw [tokens]
    exact ⟨_, .name _, leavesOf_eq _⟩

theorem spells_listParts {windows : List Window} {parts : List ListPart}
    (worded : ∀ window ∈ windows, Worded window.tokens) (rule : ListPartsRule windows parts) :
    ∃ rows, List.Forall₂ SpellsPart parts rows ∧
      windows.map (fun window => leavesOf window.tokens) = rows.map leavesOfTexts := by
  induction rule with
  | nil => exact ⟨[], .nil, rfl⟩
  | cons first _ _ step =>
    rw [List.forall_mem_cons] at worded
    obtain ⟨texts, spells, same⟩ := spells_listPart worded.1 first
    obtain ⟨rows, each, sames⟩ := step worded.2
    exact ⟨texts :: rows, .cons spells each, by rw [List.map_cons, List.map_cons, same, sames]⟩

theorem leavesOfTexts_intercalate (separator : String) (rows : List (List String)) :
    leavesOfTexts (List.intercalate [separator] rows) =
      List.intercalate (leaves separator.toList) (rows.map leavesOfTexts) := by
  cases rows with
  | nil => rfl
  | cons first rest => simp [intercalate_cons, leavesOfTexts, List.flatMap_assoc, List.flatMap_map]

/-- **A window that is read as a pattern spells it.** -/
theorem spells_pattern {window : Window} {shape : Pattern} (worded : Worded window.tokens)
    (read : pattern window = .ok shape) :
    ∃ texts, Spells shape texts ∧ leavesOf window.tokens = leavesOfTexts texts := by
  cases pattern_rule read with
  | list _ each =>
    obtain ⟨rows, spells, same⟩ := spells_listParts (worded.splitFrom _ 0 window.before) each
    have fixed : spelling (.operator .cons) ≠ "" := by decide
    refine ⟨_, .list spells, ?_⟩
    rw [leavesOfTexts_intercalate, ← same, leavesOf_separated fixed (separated_splitFrom _ 0 window.before _) worded]
    rfl
  | single found => exact spells_singlePattern worded found

end DerwLang.Leaves
