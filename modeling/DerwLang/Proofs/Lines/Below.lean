/-
**Declarations one below the other.**

When a text stands below another one, its declarations are cut as if it stood alone (`blockTokens_below`), unless it starts
with a token that goes on with the last declaration above: a closing bracket, a bar, or the name that a signature announces.
Since a declaration is read from its own tokens, and from further down as from where it stands (`lowers_blockOfTokens`), the
two texts make the module of their declarations (`parseModule_below`).
-/

import DerwLang.Proofs.Lexing.Seam
import DerwLang.Proofs.Lines.Blame
import DerwLang.Proofs.Reading.Definition

namespace DerwLang

open Grammar Lexeme

/-! ## Cutting at a seam -/

/-- What is known of the last of the declarations that some tokens make, the first of which is open. -/
def openedAfter (column : Nat) : Opened → Token → List Token → Opened
  | opened, _, [] => opened
  | opened, previous, token :: rest =>
    if startsBlock column opened previous token then openedAfter column (.ofHead token) token rest
    else openedAfter column (opened.push token) token rest

/-- Tokens by themselves, whatever line stands before them. -/
theorem tokens_pushFirst (before : Nat) (token : Token) (windows : List Window) :
    (Window.pushFirst before token windows).map Window.tokens =
      match windows.map Window.tokens with
      | [] => [[token]]
      | tokens :: more => (token :: tokens) :: more := by
  cases windows <;> rfl

theorem tokens_blocksFrom (column : Nat) (opened : Opened) (before other : Nat) (previous : Token) (rest : List Token) :
    (blocksFrom column opened before previous rest).map Window.tokens =
      (blocksFrom column opened other previous rest).map Window.tokens := by
  induction rest generalizing opened before other previous with
  | nil => rfl
  | cons token rest step =>
    rw [blocksFrom, blocksFrom]
    split
    · rfl
    · rw [tokens_pushFirst, tokens_pushFirst, step]

/-- **Where a declaration starts, the tokens before it are cut as if nothing followed.** -/
theorem tokens_blocksFrom_append {column : Nat} {opened : Opened} {previous next : Token} {rest : List Token}
    (starts : startsBlock column (openedAfter column opened previous rest) (rest.getLast?.getD previous) next = true)
    (before other : Nat) (more : List Token) :
    (blocksFrom column opened before previous (rest ++ next :: more)).map Window.tokens =
      (blocksFrom column opened before previous rest).map Window.tokens ++
        (blocksFrom column (.ofHead next) other next more).map Window.tokens := by
  induction rest generalizing opened previous before with
  | nil =>
    rw [List.nil_append, blocksFrom.eq_2, if_pos (by exact starts), List.map_cons, tokens_blocksFrom _ _ _ other]
    rfl
  | cons token rest step =>
    rw [List.getLast?_cons, Option.getD_some] at starts
    rw [List.cons_append, blocksFrom, blocksFrom]
    rw [openedAfter] at starts
    split at starts
    · rename_i cut
      rw [if_pos cut, if_pos cut, List.map_cons, List.map_cons, step starts]
      rfl
    · rename_i stays
      rw [if_neg stays, if_neg stays, tokens_pushFirst, tokens_pushFirst, step starts]
      cases filled : blocksFrom column (opened.push token) before token rest with
      | nil => exact absurd filled (blocksFrom_ne_nil _ _ _ _ _)
      | cons window more => rfl

/-- What is known of a declaration, from its tokens. -/
def Grammar.Opened.ofTokens (head : Token) (tail : List Token) : Opened :=
  tail.foldl Opened.push (.ofHead head)

/-- What is known at the end is known from the tokens of the last declaration. -/
theorem openedAfter_eq (column : Nat) (opened : Opened) (before : Nat) (previous : Token) (rest : List Token) :
    blocksFrom column opened before previous rest = [⟨before, previous :: rest⟩] ∧
        openedAfter column opened previous rest = rest.foldl Opened.push opened ∨
      ∃ front head tail, front ≠ [] ∧
        (blocksFrom column opened before previous rest).map Window.tokens = front ++ [head :: tail] ∧
        openedAfter column opened previous rest = .ofTokens head tail := by
  induction rest generalizing opened before previous with
  | nil => exact .inl ⟨rfl, rfl⟩
  | cons token rest step =>
    rw [blocksFrom, openedAfter]
    split
    · right
      rcases step (.ofHead token) previous.line token with ⟨single, known⟩ | ⟨front, head, tail, -, split_, known⟩
      · exact ⟨[[previous]], token, rest, by simp, by rw [single]; rfl, known⟩
      · exact ⟨[previous] :: front, head, tail, by simp, by rw [List.map_cons, split_]; rfl, known⟩
    · rcases step (opened.push token) before token with ⟨single, known⟩ | ⟨front, head, tail, filled, split_, known⟩
      · exact .inl ⟨by rw [single]; rfl, known⟩
      · right
        obtain ⟨tokens, more, rfl⟩ := List.exists_cons_of_ne_nil filled
        exact ⟨(previous :: tokens) :: more, head, tail, by simp, by rw [tokens_pushFirst, split_]; rfl, known⟩

/-- The tokens are a signature of the name, and no definition. -/
def isSignatureOf (name : Token) : List Token → Bool
  | head :: colon :: rest =>
    head.kind == .identifier && name.kind == .identifier && name.body == head.body && colon.kind == .colon &&
      !rest.any fun token => token.kind == .assign
  | _ => false

theorem announces_ofTokens (head name : Token) (tail : List Token) :
    (Opened.ofTokens head tail).announces name = isSignatureOf name (head :: tail) := by
  rw [Opened.ofTokens, Written.foldl_push]
  cases tail with
  | nil => simp [Opened.announces, Opened.ofHead, isSignatureOf]
  | cons colon rest =>
    have named : head.kind = .identifier → (head.kind == .assign) = false := fun isName => by rw [isName]; rfl
    have typed : colon.kind = .colon → (colon.kind == .assign) = false := fun isColon => by rw [isColon]; rfl
    cases isName : head.kind == .identifier with
    | false => simp [Opened.announces, Opened.ofHead, isSignatureOf, isName]
    | true =>
      cases isColon : colon.kind == .colon with
      | false => simp [Opened.announces, Opened.ofHead, isSignatureOf, isColon]
      | true =>
        simp [Opened.announces, Opened.ofHead, isSignatureOf, isName, isColon, named (beq_iff_eq.mp isName),
          typed (beq_iff_eq.mp isColon)]

/-- **Declarations are cut between two lots of tokens** when the second starts on a line of its own, at the column of the first
one or left of it, with a token that goes on with nothing. -/
theorem splitBlocks_append {before other : Nat} {first next : Token} {rest more : List Token}
    (below : ∀ token ∈ first :: rest, token.endLine < next.line) (level : next.column = first.column) (opens : opensBlock next = true)
    (silent : ∀ last ∈ ((splitBlocks ⟨before, first :: rest⟩).map Window.tokens).getLast?, isSignatureOf next last = false) :
    (splitBlocks ⟨before, first :: rest ++ next :: more⟩).map Window.tokens =
      (splitBlocks ⟨before, first :: rest⟩).map Window.tokens ++ (splitBlocks ⟨other, next :: more⟩).map Window.tokens := by
  have isLast : rest.getLast?.getD first ∈ first :: rest := by
    have last : (first :: rest).getLast? = some (rest.getLast?.getD first) := List.getLast?_cons
    exact List.mem_of_getLast? last
  have known : (openedAfter first.column (.ofHead first) first rest).announces next = false := by
    rcases openedAfter_eq first.column (.ofHead first) before first rest with
      ⟨single, known⟩ | ⟨front, head, tail, -, split_, known⟩
    · rw [known, ← Opened.ofTokens, announces_ofTokens]
      refine silent _ ?_
      show _ ∈ ((blocksFrom first.column (.ofHead first) before first rest).map Window.tokens).getLast?
      rw [single]
      rfl
    · rw [known, announces_ofTokens]
      refine silent _ ?_
      show _ ∈ ((blocksFrom first.column (.ofHead first) before first rest).map Window.tokens).getLast?
      rw [split_, List.getLast?_concat]
      rfl
  have starts : startsBlock first.column (openedAfter first.column (.ofHead first) first rest) (rest.getLast?.getD first)
      next = true := by
    have after : next.startsLineAfter (rest.getLast?.getD first) = true := by
      simpa [Token.startsLineAfter] using below _ isLast
    have opener : (!(next.kind == .closeCurly || next.kind == .closeBracket || next.kind == .pipe)) = true := opens
    simp only [Bool.not_eq_true', Bool.or_eq_false_iff] at opener
    simp [startsBlock, after, level, known, opener]
  have cut := tokens_blocksFrom_append starts before other more
  rw [splitBlocks, splitBlocks, splitBlocks]
  simp only [List.cons_append]
  rw [cut, level]

/-! ## Cutting two texts -/

/-- What starts with no blank is none. -/
theorem classify_ne_whitespace {c : Char} (visible : Text.isBlank c = false) (rest : List Char) :
    (classify c rest).1 ≠ .whitespace := by
  cases Lexeme.first c rest with
  | blank blank => simp [visible] at blank
  | number _ digit => simp [classify_number visible digit]
  | name _ noDigit starts =>
    rw [classify_name visible noDigit starts, wordKind]
    split
    · simp
    · split <;> simp
  | opening opening =>
    cases opening with
    | quote =>
      rw [classify_quote]
      split <;> simp
    | backquote =>
      rw [classify_backquote]
      split <;> simp
    | list => cases found : listLength 0 none rest <;> simp [classify_list, found]
    | comment more => simp [classify_comment]
    | multilineComment more => cases found : blockCommentLength more <;> simp [classify_multilineComment, found]
  | sign _ noDigit noName noOpening =>
    rw [classify_sign visible noDigit noName noOpening]
    exact (kind_sign c _).2

/-- No token reaches below the last line of its text. -/
theorem endLine_le_of_mem_tokenize {source : String} {token : Token} (member : token ∈ tokenize source) :
    token.endLine ≤ 1 + source.toList.count '\n' := by
  obtain ⟨front, back, split⟩ := List.append_of_mem member
  have whole := text_tokenizeAt source 1 1
  rw [← tokenize, split, Token.text_append, Token.text_cons] at whole
  rw [Token.endLine, (position_of_split split).1, Text.lineAfter, ← whole]
  simp only [String.toList_append, List.count_append]
  omega

/-- A text that starts with no blank has its first token in front, and that is no blank. -/
theorem visible_tokenize_cons {source : String} (starts : ∀ c ∈ source.toList.head?, Text.isBlank c = false) {first : Token}
    {rest : List Token} (tokens : tokenize source = first :: rest) :
    Token.visible (tokenize source) = first :: Token.visible rest ∧ first.line = 1 ∧ first.column = 1 := by
  have placed := position_of_split (tokens.trans (List.nil_append _).symm)
  refine ⟨?_, placed.1, placed.2⟩
  rw [tokens]
  refine List.filter_cons_of_pos ?_
  rw [tokenize, tokenizeAt] at tokens
  cases characters : source.toList with
  | nil =>
    rw [characters] at tokens
    cases tokens
  | cons c more =>
    rw [characters, scan_cons, Token.place] at tokens
    obtain ⟨rfl, -⟩ := List.cons.inj tokens
    simpa using classify_ne_whitespace (starts c (by rw [characters]; rfl)) more

theorem isSignatureOf_lowered (count : Nat) (name : Token) (tokens : List Token) :
    isSignatureOf (name.lowered count) tokens = isSignatureOf name tokens := by
  match tokens with
  | [] | [_] => rfl
  | _ :: _ :: _ => rfl

/-- Declarations further down, by their tokens. -/
theorem tokens_splitBlocks_lowered (count before other : Nat) (tokens : List Token) :
    (splitBlocks ⟨other, tokens.map (Token.lowered count)⟩).map Window.tokens =
      ((splitBlocks ⟨before, tokens⟩).map Window.tokens).map (List.map (Token.lowered count)) := by
  have further := congrArg (List.map Window.tokens) (splitBlocks_lowered count ⟨before, tokens⟩)
  rw [List.map_map] at further ⊢
  refine Eq.trans ?_ further
  cases tokens with
  | nil => rfl
  | cons first rest => exact tokens_blocksFrom _ _ _ _ _ _

section Below

variable {first second : String} (known : ∀ token ∈ tokenize first, token.kind ≠ .unknown)
  (margin : ∀ token ∈ (Token.visible (tokenize first)).head?, token.column = 1)
  (starts : ∀ c ∈ second.toList.head?, Text.isBlank c = false)
  (opens : ∀ token ∈ (tokenize second).head?, opensBlock token = true)
  (defined : ∀ last ∈ (blockTokens first).getLast?, ∀ token ∈ (tokenize second).head?, isSignatureOf token last = false)

include known margin starts opens defined

/-- **The declarations of a text below another one are cut as if it stood alone.** -/
theorem blockTokens_below :
    blockTokens (first ++ "\n" ++ second) =
      blockTokens first ++ (blockTokens second).map (List.map (Token.lowered (first.toList.count '\n' + 1))) := by
  have cut (source : String) :
      blockTokens source = (splitBlocks ⟨1, Token.visible (tokenize source)⟩).map Window.tokens := rfl
  have ends : ∀ token ∈ Token.visible (tokenize first), token.endLine ≤ 1 + first.toList.count '\n' :=
    fun token member => endLine_le_of_mem_tokenize (List.mem_of_mem_filter member)
  rw [cut first] at defined
  rw [cut, cut, cut, visible_tokenize_below known starts, ← tokens_splitBlocks_lowered _ 1 1]
  cases above : Token.visible (tokenize first) with
  | nil => rfl
  | cons head rest =>
    cases below : tokenize second with
    | nil => simp [Token.visible, splitBlocks]
    | cons next more =>
      rw [above] at margin ends defined
      rw [below] at opens defined
      obtain ⟨seen, line, column⟩ := visible_tokenize_cons starts below
      rw [← below, seen]
      refine splitBlocks_append (fun token member => ?_) ?_ (opens next rfl) fun last member => ?_
      · have ending := ends token member
        rw [Token.line_lowered, line]
        omega
      · rw [Token.column_lowered, column, margin head rfl]
      · rw [isSignatureOf_lowered]
        exact defined last member next rfl

/-! ## Reading two texts -/

/-- **Each declaration reads as it does in its own text**; errors of the second text move down with it. -/
theorem readBlocks_below :
    ∃ others, readBlocks (first ++ "\n" ++ second) = readBlocks first ++ others ∧
      List.Forall₂ (Lowers Set.univ (first.toList.count '\n' + 1) Eq) (readBlocks second) others := by
  refine ⟨(blockTokens second).map fun tokens =>
    blockOfTokens (tokens.map (Token.lowered (first.toList.count '\n' + 1))), ?_, ?_⟩
  · rw [readBlocks, blockTokens_below known margin starts opens defined, List.map_append, List.map_map]
    rfl
  · rw [readBlocks, List.forall₂_map_left_iff, List.forall₂_map_right_iff, List.forall₂_same]
    exact fun tokens _ => lowers_blockOfTokens _ fun token _ offset _ => Set.mem_univ _

end Below

/-- Readings side by side give the same declaration, or errors of one wording. -/
theorem Lowers.same {lines : Set Nat} {count : Nat} {first second : Parsed (Option Block)}
    (both : Lowers lines count Eq first second) :
    blockOf? second = blockOf? first ∧ (errorOf? second).map ParseError.message = (errorOf? first).map ParseError.message := by
  cases both with
  | ok same => exact ⟨same.symm, rfl⟩
  | error same => cases same <;> exact ⟨rfl, rfl⟩

theorem Lowers.same_each {lines : Set Nat} {count : Nat} {first second : List (Parsed (Option Block))}
    (both : List.Forall₂ (Lowers lines count Eq) first second) :
    second.filterMap blockOf? = first.filterMap blockOf? ∧
      (second.filterMap errorOf?).map ParseError.message = (first.filterMap errorOf?).map ParseError.message := by
  rw [List.map_filterMap, List.map_filterMap]
  induction both with
  | nil => exact ⟨rfl, rfl⟩
  | cons one _ step =>
    simp only [List.filterMap_cons, one.same.1, one.same.2, step.1, step.2, and_self]

/-- **Texts one below the other declare what each of them declares**, and fail where each of them fails: when all of the first
is recognised and it starts at the margin, and the second starts with no blank and with a token that does not go on with the
last declaration of the first. -/
theorem parseModule_below (name : String) {first second : String} (known : ∀ token ∈ tokenize first, token.kind ≠ .unknown)
    (margin : ∀ token ∈ (Token.visible (tokenize first)).head?, token.column = 1)
    (starts : ∀ c ∈ second.toList.head?, Text.isBlank c = false)
    (opens : ∀ token ∈ (tokenize second).head?, opensBlock token = true)
    (defined : ∀ last ∈ (blockTokens first).getLast?, ∀ token ∈ (tokenize second).head?,
      isSignatureOf token last = false) :
    (parseModule (first ++ "\n" ++ second) name).body = (parseModule first name).body ++ (parseModule second name).body ∧
      (parseModule (first ++ "\n" ++ second) name).errors.map ParseError.message =
        (parseModule first name).errors.map ParseError.message ++
          (parseModule second name).errors.map ParseError.message ∧
      ∃ others, readBlocks (first ++ "\n" ++ second) = readBlocks first ++ others ∧
        List.Forall₂ (Lowers Set.univ (first.toList.count '\n' + 1) Eq) (readBlocks second) others := by
  obtain ⟨others, whole, both⟩ := readBlocks_below known margin starts opens defined
  obtain ⟨body, errors⟩ := Lowers.same_each both
  refine ⟨?_, ?_, others, whole, both⟩
  · simp only [parseModule, whole, List.filterMap_append, body]
  · simp only [parseModule, whole, List.filterMap_append, List.map_append, errors]

/-- A constant whose bracket nothing closes, and a comment. -/
def upperText : String :=
  "x =\n    (1\n\n-- below"

/-- A definition with its signature, and a list with a missing item. -/
def lowerText : String :=
  "f: number -> number\nf y =\n    y\n\nz =\n    [ 1,, 2 ]\n"

theorem parseModule_below_comment :
    (∀ token ∈ tokenize upperText, token.kind ≠ .unknown) ∧
      (∀ token ∈ (Token.visible (tokenize upperText)).head?, token.column = 1) ∧
      (∀ c ∈ lowerText.toList.head?, Text.isBlank c = false) ∧
      (∀ token ∈ (tokenize lowerText).head?, opensBlock token = true) ∧
      (∀ last ∈ (blockTokens upperText).getLast?, ∀ token ∈ (tokenize lowerText).head?, isSignatureOf token last = false) ∧
      (parseModule (upperText ++ "\n" ++ lowerText) "Main").body =
        (parseModule upperText "Main").body ++ (parseModule lowerText "Main").body ∧
      (parseModule (upperText ++ "\n" ++ lowerText) "Main").errors.map ParseError.message =
        (parseModule upperText "Main").errors.map ParseError.message ++
          (parseModule lowerText "Main").errors.map ParseError.message ∧
      ∃ others, readBlocks (upperText ++ "\n" ++ lowerText) = readBlocks upperText ++ others ∧
        List.Forall₂ (Lowers Set.univ (upperText.toList.count '\n' + 1) Eq) (readBlocks lowerText) others := by
  have known : ∀ token ∈ tokenize upperText, token.kind ≠ .unknown := by decide
  have margin : ∀ token ∈ (Token.visible (tokenize upperText)).head?, token.column = 1 := by decide
  have starts : ∀ c ∈ lowerText.toList.head?, Text.isBlank c = false := by
    have first : lowerText.toList.head? = some 'f' := by decide
    rw [first]
    rintro _ ⟨⟩
    decide
  have opens : ∀ token ∈ (tokenize lowerText).head?, opensBlock token = true := by decide
  have defined : ∀ last ∈ (blockTokens upperText).getLast?, ∀ token ∈ (tokenize lowerText).head?,
      isSignatureOf token last = false := by decide
  exact ⟨known, margin, starts, opens, defined, parseModule_below "Main" known margin starts opens defined⟩

end DerwLang
