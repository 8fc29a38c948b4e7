/-
**Declarations further down.**

The readers of declarations ask for required tokens one after the other and hand the rest on. The knot of expressions and
bodies is tied by the weight of a window, which is the same further down (`weight_lowered`). So a block of tokens is read as
the same declaration wherever it stands, or fails for the same cause (`lowers_blockOfTokens`).
-/

import DerwLang.Proofs.Lines.Expression

namespace DerwLang

open Grammar

variable {lines : Set Nat} {count : Nat}

section

variable {window : Window} {token : Token} {before line : Nat} {tokens : List Token}

/-! ## Imports and exports -/

theorem lowers_namesUpToClose (known : before ∈ lines) (on : ∀ token ∈ tokens, token.On lines) :
    Lowers lines count (Left lines count) (namesUpToClose before tokens)
      (namesUpToClose (before + count) (tokens.map (Token.lowered count))) := by
  induction tokens generalizing before with
  | nil => exact .blamed _ known
  | cons token rest step =>
    obtain ⟨own, later⟩ := List.forall_mem_cons.mp on
    simp only [List.map_cons, namesUpToClose, Token.kind_lowered, Token.body_lowered]
    cases token.kind with
    | closeBracket => exact .left _ ⟨own.line, later⟩
    | identifier =>
      refine (step own.line later).bind ?_
      rintro ⟨names, ending⟩ _ ⟨left, rfl⟩
      exact .left _ left
    | comma => exact step own.line later
    | operator sign =>
      cases sign with
      | range => exact step own.line later
      | _ => exact .blamed _ own.line
    | _ => exact .blamed _ own.line

theorem lowers_nameList (on : window.On lines) :
    Lowers lines count (Left lines count) (nameList window) (nameList (window.lowered count)) := by
  unfold nameList
  refine (lowers_expect on .openBracket .toOpenNames).bind ?_
  rintro ⟨opening, rest⟩ _ ⟨own, left, rfl⟩
  exact lowers_namesUpToClose own.line left.tokens

theorem lowers_importing (own : token.On lines) (on : window.On lines) :
    Lowers lines count Eq (importing token window) (importing (token.lowered count) (window.lowered count)) := by
  unfold importing
  refine Lowers.bind_by (fun first second =>
    first.2.2.On lines ∧ second = (first.1, first.2.1, first.2.2.lowered count)) ?_ ?_
  · obtain ⟨before, tokens⟩ := window
    cases tokens with
    | nil => exact .blamed _ own.line
    | cons next rest =>
      obtain ⟨own', later⟩ := List.forall_mem_cons.mp on.tokens
      simp only [Window.lowered, List.map_cons, Token.kind_lowered]
      cases next.kind with
      | identifier | string => exact .ok ⟨⟨own'.line, later⟩, rfl⟩
      | _ => exact .here on _
  · rintro ⟨name, origin, rest⟩ _ ⟨left, rfl⟩
    refine Lowers.bind_by (Left lines count) ?_ ?_
    · dsimp only
      rw [Window.nextKind_lowered]
      split
      · rw [Window.tail_lowered]
        refine (lowers_expect left.tail .identifier .afterAs).bind ?_
        rintro ⟨name, rest⟩ _ ⟨-, left, rfl⟩
        exact .left _ left
      · exact .left _ left
    · rintro ⟨alias?, rest⟩ _ ⟨left, rfl⟩
      refine Lowers.bind_by (Left lines count) ?_ ?_
      · dsimp only
        rw [Window.nextKind_lowered]
        split
        · rw [Window.tail_lowered]
          exact lowers_nameList left.tail
        · exact .left _ left
      · rintro ⟨exposing, rest⟩ _ ⟨left, rfl⟩
        refine (lowers_expectEnd left _).bind ?_
        rintro _ _ rfl
        exact .value _

theorem lowers_exposing (on : window.On lines) :
    Lowers lines count Eq (exposing window) (exposing (window.lowered count)) := by
  unfold exposing
  refine (lowers_nameList on).bind ?_
  rintro ⟨names, rest⟩ _ ⟨left, rfl⟩
  refine (lowers_expectEnd left _).bind ?_
  rintro _ _ rfl
  exact .value _

/-! ## Types -/

theorem lowers_typedField (known : line ∈ lines) (on : window.On lines) :
    Lowers lines count Eq (typedField line window) (typedField (line + count) (window.lowered count)) := by
  obtain ⟨before, tokens⟩ := window
  match tokens with
  | [] => exact .blamed _ known
  | [name] => exact .blamed _ (on.tokens name List.mem_cons_self).line
  | [name, colon] => exact .blamed _ (on.tokens name List.mem_cons_self).line
  | name :: colon :: first :: rest =>
    obtain ⟨own, later⟩ := List.forall_mem_cons.mp on.tokens
    refine .ite (fun _ => ?_) fun _ => .blamed _ own.line
    refine (lowers_typeOf (List.forall_mem_cons.mp later).2).bind ?_
    rintro type _ rfl
    exact .value _

theorem lowers_typedFields (on : window.On lines) :
    Lowers lines count (Left lines count) (typedFields window) (typedFields (window.lowered count)) := by
  unfold typedFields
  refine (lowers_expect on .openCurly .toOpenFields).bind ?_
  rintro ⟨opening, rest⟩ _ ⟨own, left, rfl⟩
  dsimp only
  rw [show (rest.lowered count).tokens = rest.tokens.map (Token.lowered count) from rfl, splitClose_lowered]
  cases found : Token.splitClose .openCurly .closeCurly 0 rest.tokens with
  | none => exact .blamed _ own.line
  | some cut =>
    obtain ⟨inside, closing, after⟩ := Cut.forall_of_all (Token.splitClose_eq found) left.tokens
    have within : Window.On lines ⟨opening.line, cut.inside⟩ := ⟨own.line, inside⟩
    have final : Window.On lines ⟨cut.token.line, cut.after⟩ := ⟨closing.line, after⟩
    have fields : Lowers lines count Eq
        ((Window.splitOutside ⟨opening.line, cut.inside⟩ .comma).mapM (typedField opening.line))
        (((Window.splitOutside ⟨opening.line, cut.inside⟩ .comma).map (Window.lowered count)).mapM
          (typedField (opening.line + count))) :=
      .mapM fun window member => lowers_typedField own.line (within.splitOutside _ window member)
    rw [← splitOutside_lowered] at fields
    simp only [Option.map_some, Cut.lowered, List.isEmpty_map]
    refine .ite (fun _ => .left _ final) fun _ => fields.bind ?_
    rintro fields _ rfl
    exact .left _ final

theorem lowers_tag (on : window.On lines) :
    Lowers lines count (Left lines count) (tag window) (tag (window.lowered count)) := by
  unfold tag
  refine (lowers_expect on .identifier .asTag).bind ?_
  rintro ⟨name, rest⟩ _ ⟨-, left, rfl⟩
  dsimp only
  rw [Window.nextKind_lowered]
  split
  · refine (lowers_typedFields left).bind ?_
    rintro ⟨fields, rest⟩ _ ⟨left, rfl⟩
    exact .left _ left
  · exact .left _ left

theorem lowers_tags (on : window.On lines) :
    Lowers lines count (Left lines count) (tags window) (tags (window.lowered count)) := by
  induction size : window.tokens.length using Nat.strongRecOn generalizing window with
  | _ length step =>
    rw [tags_eq, tags_eq]
    refine (lowers_tag on).bind_found ?_
    rintro ⟨first, ending⟩ _ found ⟨left, rfl⟩
    have shorter := length_tag found
    have tail : ending.tokens.tail.length < length := by
      rw [List.length_tail]
      omega
    dsimp only
    rw [Window.nextKind_lowered]
    split
    · rw [Window.tail_lowered]
      refine (step _ tail left.tail rfl).bind ?_
      rintro ⟨others, final⟩ _ ⟨left, rfl⟩
      exact .left _ left
    · exact .left _ left

theorem lowers_unionType (on : window.On lines) :
    Lowers lines count Eq (unionType window) (unionType (window.lowered count)) := by
  unfold unionType
  refine (lowers_expect on .identifier .afterType).bind ?_
  rintro ⟨name, rest⟩ _ ⟨-, left, rfl⟩
  dsimp only
  rw [takeNames_lowered]
  refine (lowers_expect left.takeNames .assign (.afterTypeName name.body)).bind ?_
  rintro ⟨_, rest⟩ _ ⟨-, left, rfl⟩
  refine (lowers_tags left).bind ?_
  rintro ⟨tags, rest⟩ _ ⟨left, rfl⟩
  refine (lowers_expectEnd left _).bind ?_
  rintro _ _ rfl
  exact .value _

theorem lowers_typeAlias (on : window.On lines) :
    Lowers lines count Eq (typeAlias window) (typeAlias (window.lowered count)) := by
  unfold typeAlias
  refine (lowers_expect on .identifier .afterAlias).bind ?_
  rintro ⟨name, rest⟩ _ ⟨-, left, rfl⟩
  dsimp only
  rw [takeNames_lowered]
  refine (lowers_expect left.takeNames .assign (.afterAliasName name.body)).bind ?_
  rintro ⟨_, rest⟩ _ ⟨-, left, rfl⟩
  refine (lowers_typedFields left).bind ?_
  rintro ⟨properties, rest⟩ _ ⟨left, rfl⟩
  refine (lowers_expectEnd left _).bind ?_
  rintro _ _ rfl
  exact .value _

/-! ## Definitions -/

/-- Bodies are read further down as they are here. -/
def LowersBodies (lines : Set Nat) (count : Nat) (read : Window → Parsed Body) : Prop :=
  ∀ {window : Window}, window.On lines → Lowers lines count Eq (read window) (read (window.lowered count))

variable {read : Window → Parsed Body}

theorem lowers_optionalSignature (own : token.On lines) (on : window.On lines) :
    Lowers lines count (Left lines count) (optionalSignature token window)
      (optionalSignature (token.lowered count) (window.lowered count)) := by
  obtain ⟨before, tokens⟩ := window
  cases tokens with
  | nil => exact .left _ on
  | cons colon rest =>
    obtain ⟨-, later⟩ := List.forall_mem_cons.mp on.tokens
    refine .ite (fun _ => ?_) fun _ => .left _ on
    rw [show (Token.lowered count token).body = token.body from rfl, splitDefinition_lowered]
    cases found : Token.splitDefinition token.body colon rest with
    | none => exact .blamed _ own.line
    | some cut =>
      obtain ⟨inside, defined, after⟩ := Cut.forall_of_all (Token.splitDefinition_eq found) later
      refine (lowers_signature inside).bind ?_
      rintro types _ rfl
      exact .left _ ⟨defined.line, after⟩

theorem lowers_typed (name : String) (known : line ∈ lines) (types : List Ty) (arguments : List String) (body : Body) :
    Lowers lines count Eq (typed name line types arguments body) (typed name (line + count) types arguments body) := by
  cases arguments with
  | nil => exact .value _
  | cons argument arguments => exact .ite (fun _ => .blamed _ known) fun _ => .value _

theorem lowers_definition (lowers : LowersBodies lines count read) (own : token.On lines) (on : window.On lines) :
    Lowers lines count Eq (definition read token window) (definition read (token.lowered count) (window.lowered count)) := by
  unfold definition
  refine (lowers_optionalSignature own on).bind ?_
  rintro ⟨types?, rest⟩ _ ⟨left, rfl⟩
  dsimp only
  rw [takeNames_lowered]
  refine (lowers_expect left.takeNames .assign (.inDefinition token.body)).bind ?_
  rintro ⟨_, rest⟩ _ ⟨-, left, rfl⟩
  refine (lowers left).bind ?_
  rintro body _ rfl
  cases types? with
  | none => exact .value _
  | some types => exact lowers_typed _ own.line _ _ _

theorem lowers_blockWith (lowers : LowersBodies lines count read) (on : window.On lines) :
    Lowers lines count Eq (blockWith read window) (blockWith read (window.lowered count)) := by
  obtain ⟨before, tokens⟩ := window
  cases tokens with
  | nil => exact .here on _
  | cons token rest =>
    obtain ⟨own, later⟩ := List.forall_mem_cons.mp on.tokens
    have after : Window.On lines ⟨token.line, rest⟩ := ⟨own.line, later⟩
    simp only [blockWith, Window.lowered, List.map_cons, Token.kind_lowered, Token.body_lowered]
    cases token.kind with
    | keyword word =>
      cases word with
      | importWord => exact lowers_importing own after
      | exposingWord => exact lowers_exposing after
      | typeWord =>
        cases rest with
        | nil => exact lowers_unionType after
        | cons next more =>
          simp only [Window.nextKind, List.map_cons, List.head?_cons, Option.map_some, Token.kind_lowered]
          split
          · exact lowers_typeAlias after.tail
          · exact lowers_unionType after
      | _ => exact .here on _
    | identifier => exact lowers_definition lowers own after
    | _ => exact .here on _

/-! ## Local definitions -/

theorem lowers_localDefinition (lowers : LowersBodies lines count read) (on : window.On lines) :
    Lowers lines count Eq (localDefinition read window) (localDefinition read (window.lowered count)) := by
  unfold localDefinition
  refine (lowers_blockWith lowers on).bind ?_
  rintro block _ rfl
  exact .ite (fun _ => .value _) fun _ => .here on _

theorem lowers_localDefinitions (lowers : LowersBodies lines count read) (on : window.On lines) :
    Lowers lines count Eq (localDefinitions read window) (localDefinitions read (window.lowered count)) := by
  unfold localDefinitions
  rw [show (window.lowered count).tokens.isEmpty = window.tokens.isEmpty from List.isEmpty_map, splitBlocks_lowered count window]
  exact .ite (fun _ => .here on _) fun _ =>
    .mapM fun part member => lowers_localDefinition lowers (on.splitBlocks part member)

theorem lowers_bodyStep {nested : Nested} (lowers : NestedLowers lines count nested) (on : window.On lines) :
    Lowers lines count Eq (bodyStep nested window) (bodyStep nested (window.lowered count)) := by
  have whole := lowers_expressionStep lowers on
  obtain ⟨before, tokens⟩ := window
  cases tokens with
  | nil => exact .here on _
  | cons token rest =>
    obtain ⟨own, later⟩ := List.forall_mem_cons.mp on.tokens
    simp only [bodyStep, Window.lowered, List.map_cons, Token.kind_lowered, splitKeyword_lowered]
    refine .ite (fun _ => ?_) fun _ => ?_
    · cases found : Token.splitKeyword .inWord .letWord .inWord 0 rest with
      | none => exact .here on _
      | some cut =>
        obtain ⟨inside, inWord, after⟩ := Cut.forall_of_all (Token.splitKeyword_eq found) later
        refine (lowers_localDefinitions lowers.body (Window.on_mk own.line inside)).bind ?_
        rintro locals _ rfl
        refine (lowers.expression (Window.on_mk inWord.line after)).bind ?_
        rintro result _ rfl
        exact .value _
    · refine whole.bind ?_
      rintro result _ rfl
      exact .value _

/-! ## The knot -/

theorem nestedLowers_at (depth : Nat) : NestedLowers lines count ⟨expressionAt depth, bodyAt depth⟩ := by
  induction depth with
  | zero =>
    constructor <;> intro window on
    · dsimp only
      rw [expressionAt, expressionAt]
      exact .here on _
    · dsimp only
      rw [bodyAt, bodyAt]
      exact .here on _
  | succ depth step =>
    constructor <;> intro window on
    · dsimp only
      rw [expressionAt, expressionAt]
      exact lowers_expressionStep step on
    · dsimp only
      rw [bodyAt, bodyAt]
      exact lowers_bodyStep step on

theorem weight_lowered (window : Window) : (window.lowered count).weight = window.weight := by
  unfold Window.weight Window.lowered
  rw [List.foldr_map]
  rfl

theorem lowersBodies_body : LowersBodies lines count body := by
  intro window on
  unfold body
  rw [weight_lowered]
  exact (nestedLowers_at _).body on

/-! ## Blocks -/

/-- **A block of tokens is read further down as it is here.** -/
theorem lowers_blockOfTokens (count : Nat) (on : ∀ token ∈ tokens, token.On lines) :
    Lowers lines count Eq (blockOfTokens tokens) (blockOfTokens (tokens.map (Token.lowered count))) := by
  have read : Lowers lines count Eq
      (if (Token.significant tokens).isEmpty then .ok none
        else some <$> block ⟨lineOf (Token.significant tokens), Token.significant tokens⟩)
      (if (Token.significant (tokens.map (Token.lowered count))).isEmpty then .ok none
        else some <$> block ⟨lineOf (Token.significant (tokens.map (Token.lowered count))),
          Token.significant (tokens.map (Token.lowered count))⟩) := by
    rw [Token.significant_lowered, List.isEmpty_map]
    refine .ite (fun _ => .value _) fun filled => ?_
    have some_ : Token.significant tokens ≠ [] := by simpa using filled
    have seen : ∀ token ∈ Token.significant tokens, token.On lines :=
      fun token member => on token (Token.of_mem_significant member)
    rw [lineOf_lowered some_]
    exact (lowers_blockWith lowersBodies_body (Window.on_mk (lineOf_mem some_ seen) seen)).map fun _ _ same => congrArg some same
  unfold blockOfTokens
  match tokens with
  | [] => exact read
  | [token] =>
    simp only [List.map_cons, List.map_nil, Token.kind_lowered, Token.body_lowered]
    cases token.kind with
    | comment | multilineComment => exact .value _
    | _ => exact read
  | _ :: _ :: _ => exact read

end

end DerwLang
