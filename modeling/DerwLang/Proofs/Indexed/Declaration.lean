/-
**The front end never misses.**

Declarations are cut by index where their windows are cut (`splitBlocks_eq`) and read as these are. The knot is tied with more
depth than there is weight, so no reading runs out of it (`readers_agree`). In the end every source has its tokens, its module
and its expression, with all of their accesses in range (`front_end_ok`).
-/

import DerwLang.Indexed.Declaration
import DerwLang.Proofs.Indexed.Expression
import DerwLang.Proofs.Lines.Below

namespace DerwLang.Indexed

open Grammar (Nested Opened isDefinition lineOf typeOfParts unquote)

/-! ## Layout -/

/-- A signature of a name is told by its first two tokens, and by its having no `=`. -/
theorem isSignatureOf_eq (head name : Token) (tail rest : List Token) :
    isSignatureOf name (head :: tail) =
      (head.kind == .identifier && name.kind == .identifier && name.body == head.body &&
        (tail ++ name :: rest).head?.map Token.kind == some .colon && !(head :: tail).any fun token => token.kind == .assign) := by
  cases tail with
  | nil =>
    cases isName : name.kind == .identifier with
    | false => simp [isSignatureOf]
    | true =>
      have noColon : name.kind ≠ .colon := by rw [beq_iff_eq.mp isName]; decide
      simp [isSignatureOf, noColon]
  | cons colon tail =>
    cases isName : head.kind == .identifier with
    | false => simp [isSignatureOf, isName]
    | true =>
      cases isColon : colon.kind == .colon with
      | false => simp [isSignatureOf, isColon]
      | true =>
        have headPlain : (head.kind == .assign) = false := by rw [beq_iff_eq.mp isName]; rfl
        have colonPlain : (colon.kind == .assign) = false := by rw [beq_iff_eq.mp isColon]; rfl
        simp [isSignatureOf, isName, isColon, headPlain, colonPlain]

/-- Whether a token opens a declaration is found out from the tokens of the declaration at hand. -/
theorem opensBlock_eq (column : Nat) (done rest : List Token) {own tail : List Token} {head previous token : Token}
    (block : own ++ [previous] = head :: tail) :
    opensBlock (done ++ (own ++ previous :: token :: rest)) column done.length (done.length + own.length + 1) =
      .ok (Grammar.startsBlock column (Opened.ofTokens head tail) previous token) := by
  have place : done.length + own.length = (done ++ own).length := List.length_append.symm
  have whole : done ++ (own ++ previous :: token :: rest) = done ++ own ++ previous :: token :: rest := by simp
  have start : done ++ (own ++ previous :: token :: rest) = done ++ head :: (tail ++ token :: rest) := by
    have := congrArg (· ++ token :: rest) block
    simp at this
    simp [this]
  have item : Checked.item (done ++ (own ++ previous :: token :: rest)) (done.length + own.length + 1) = .ok token := by
    rw [whole, place]
    exact item_append_next _ _ _ _
  have before : Checked.item (done ++ (own ++ previous :: token :: rest)) (done.length + own.length) = .ok previous := by
    rw [whole, place]
    exact item_append _ _ _
  have first : Checked.item (done ++ (own ++ previous :: token :: rest)) done.length = .ok head := by
    rw [start]
    exact item_append _ _ _
  have slice : Checked.slice (done ++ (own ++ previous :: token :: rest)) done.length (done.length + own.length + 1) =
      .ok (head :: tail) := by
    have slice := slice_append done (head :: tail) (token :: rest)
    rw [← block, List.length_append, List.length_singleton, ← Nat.add_assoc, List.append_assoc] at slice
    rw [← block]
    exact slice
  rw [opensBlock, item, Checked.ok_bind, Checked.minus_one, Checked.ok_bind, before, Checked.ok_bind, Grammar.startsBlock,
    announces_ofTokens, first, slice]
  have second : (done ++ (own ++ previous :: token :: rest))[done.length + 1]? = (tail ++ token :: rest).head? := by
    rw [start, List.getElem?_append_right (Nat.le_succ _), List.head?_eq_getElem?]
    simp
  simp only [Checked.ok_bind, second, isSignatureOf_eq head token tail rest]
  cases token.startsLineAfter previous with
  | false => rfl
  | true =>
    by_cases left : column < token.column
    · simp [left, Nat.not_le.mpr left]
    · have same : (Opened.ofTokens head tail).head = head := by rw [Opened.ofTokens, Written.foldl_push]; rfl
      simp only [left, Nat.not_lt.mp left, same]
      generalize (token.kind.isComment || head.kind.isComment) = comment
      generalize (token.kind == .closeCurly || token.kind == .closeBracket || token.kind == .pipe) = goesOn
      generalize ((head :: tail).any fun token => token.kind == .assign) = assigned
      generalize (head.kind == .identifier && token.kind == .identifier && token.body == head.body &&
        Option.map Token.kind (tail ++ token :: rest).head? == some .colon) = announced
      cases comment <;> cases goesOn <;> cases announced <;> cases assigned <;> rfl

/-- The declarations of the tokens that are left, the first of which goes on with `own` and, so far, ends with `previous`. -/
theorem blocksFrom_eq (column : Nat) (done : List Token) {own tail : List Token} {head previous : Token}
    (block : own ++ [previous] = head :: tail) (rest after : List Token)
    (enclosed : ∀ token ∈ own ++ previous :: rest, token.Enclosed) :
    ∃ part more ranges,
      Grammar.blocksFrom column (Opened.ofTokens head tail) (lineBefore done (own ++ (previous :: rest ++ after))) previous rest =
        ⟨lineBefore done (own ++ (previous :: rest ++ after)), part⟩ :: more ∧
      blocksFrom (done ++ (own ++ (previous :: rest ++ after))) column rest.length done.length (done.length + own.length + 1) =
        .ok ranges ∧
      List.Forall₂ (Sees (done ++ (own ++ (previous :: rest ++ after))) (own ++ previous :: rest)) ranges
        (⟨lineBefore done (own ++ (previous :: rest ++ after)), own ++ part⟩ :: more) := by
  induction rest generalizing done own tail head previous with
  | nil =>
    exact ⟨[previous], [], [(done.length, done.length + own.length + 1)], rfl, rfl,
      .cons (sees_through enclosed (List.Sublist.refl _)) .nil⟩
  | cons token rest step =>
    have whole : done ++ (own ++ (previous :: token :: rest ++ after)) = done ++ (own ++ previous :: token :: (rest ++ after)) := by
      simp
    rw [whole, List.length_cons, blocksFrom, opensBlock_eq column done (rest ++ after) block, Checked.ok_bind, Grammar.blocksFrom]
    split
    · have single : ([] : List Token) ++ [token] = [token] := rfl
      obtain ⟨part, more, ranges, parts, read, sees⟩ := step (done ++ own ++ [previous]) single fun other member =>
        enclosed other (by simp_all)
      have line : lineBefore (done ++ own ++ [previous]) ([] ++ (token :: rest ++ after)) = previous.line :=
        lineBefore_push _ _ _
      have same : done ++ own ++ [previous] ++ ([] ++ (token :: rest ++ after)) =
          done ++ (own ++ previous :: token :: (rest ++ after)) := by simp
      have next : (done ++ own ++ [previous]).length = done.length + own.length + 1 := by simp [Nat.add_assoc]
      rw [line] at parts sees
      rw [same] at read sees
      rw [next] at read
      have opened : Opened.ofTokens token [] = .ofHead token := rfl
      rw [opened] at parts
      refine ⟨[previous], ⟨previous.line, part⟩ :: more, (done.length, done.length + own.length + 1) :: ranges, by rw [parts],
        ?_, .cons ?_ ?_⟩
      · rw [List.length_nil, Nat.add_zero] at read
        rw [read]
        rfl
      · exact sees_through enclosed (by simp)
      · exact sees.imp fun range window sees => sees.mono (by simp)
    · have longer : own ++ [previous] ++ [token] = head :: (tail ++ [token]) := by rw [block, List.cons_append]
      obtain ⟨part, more, ranges, parts, read, sees⟩ := step done longer fun other member =>
        enclosed other (by rwa [List.append_assoc] at member)
      have same : own ++ [previous] ++ (token :: rest ++ after) = own ++ (previous :: token :: rest ++ after) := by simp
      have next : done.length + (own ++ [previous]).length + 1 = done.length + own.length + 1 + 1 := by simp [Nat.add_assoc]
      have opened : Opened.ofTokens head (tail ++ [token]) = (Opened.ofTokens head tail).push token := List.foldl_concat ..
      rw [same, opened] at parts
      rw [same] at read sees
      rw [whole] at read sees
      rw [next] at read
      refine ⟨previous :: part, more, ranges, by rw [parts]; rfl, read, ?_⟩
      simpa using sees

/-- **The declarations are found where the window is split.** -/
theorem splitBlocks_eq {cursor : Cursor} {before : Nat} {first : Token} {rest : List Token}
    (views : cursor.Views ⟨before, first :: rest⟩) :
    ∃ ranges, splitBlocks cursor.tokens cursor.index cursor.stop = .ok ranges ∧
      List.Forall₂ (Sees cursor.tokens (first :: rest)) ranges (Grammar.splitBlocks ⟨before, first :: rest⟩) := by
  obtain ⟨done, after, rfl, line, enclosed⟩ := views
  have single : ([] : List Token) ++ [first] = [first] := rfl
  obtain ⟨part, more, ranges, parts, read, sees⟩ := blocksFrom_eq first.column done single rest after enclosed
  rw [List.nil_append, ← line] at parts sees
  have split_ : Grammar.splitBlocks ⟨before, first :: rest⟩ = ⟨before, part⟩ :: more := parts
  have item : (done ++ (first :: rest ++ after))[done.length]? = some first := by simp
  have count : done.length + (rest.length + 1) - (done.length + 1) = rest.length := by omega
  refine ⟨ranges, ?_, split_ ▸ sees⟩
  rw [splitBlocks, Cursor.around]
  dsimp only
  rw [item]
  dsimp only
  rw [List.length_cons, count]
  exact read

/-! ## Signatures -/

/-- The name that is defined below its signature is found where the tokens are cut. -/
theorem firstDefinition_eq (name : String) (done : List Token) (previous : Token) (rest after : List Token) :
    Checked.firstIndex (fun index => do
        let token ← Checked.item (done ++ previous :: (rest ++ after)) index
        if token.kind == .identifier && token.body == name then startsLine (done ++ previous :: (rest ++ after)) index
        else return false) rest.length (done.length + 1) =
      .ok ((Token.splitDefinition name previous rest).map fun cut => done.length + 1 + cut.inside.length) := by
  induction rest generalizing done previous with
  | nil => rfl
  | cons token rest step =>
    have later := step (done ++ [previous]) token
    have same : done ++ [previous] ++ token :: (rest ++ after) = done ++ previous :: (token :: rest ++ after) := by simp
    rw [same, List.length_append, List.length_singleton, ← map_push _ token] at later
    rw [List.length_cons, Checked.firstIndex, Token.splitDefinition, List.cons_append, item_append_next, Checked.ok_bind,
      startsLine_eq]
    cases isName : token.kind == .identifier && token.body == name with
    | false =>
      rw [if_neg (by simp), if_neg (by simp)]
      exact later
    | true =>
      rw [if_pos rfl]
      cases starts : token.startsLineAfter previous with
      | false =>
        rw [if_neg (by simp)]
        exact later
      | true =>
        rw [if_pos (by simp)]
        rfl

section

variable {bound : Nat} {cursor : Cursor} {window : Window} {token : Token} {tokens rest : List Token} {before : Nat}

/-! ## Imports and exports -/

theorem agrees_namesUpToClose {round : Nat} (views : cursor.Views ⟨before, tokens⟩) (long : tokens.length < round) :
    Agrees (Left tokens) (namesUpToClose round cursor) (Grammar.namesUpToClose before tokens) := by
  induction round generalizing cursor before tokens with
  | zero => simp at long
  | succ round step =>
    rw [namesUpToClose, views.peek]
    cases tokens with
    | nil => exact views.refuse _
    | cons token rest =>
      have later := step views.next (Nat.lt_of_succ_lt_succ long)
      have goesOn : Agrees (Left (token :: rest)) (namesUpToClose round cursor.next)
          (Grammar.namesUpToClose token.line rest) :=
        later.mono fun _ _ read => ⟨read.1, read.2.1, read.2.2.trans (List.suffix_cons _ _)⟩
      dsimp only [Grammar.namesUpToClose, List.head?_cons]
      cases token.kind with
      | closeBracket => exact .left _ views.next (List.suffix_cons _ _)
      | identifier =>
        refine later.bind ?_
        rintro ⟨names, ending⟩ ⟨_, ending'⟩ ⟨rfl, left, among⟩
        exact .left _ left (among.trans (List.suffix_cons _ _))
      | comma => exact goesOn
      | operator sign =>
        cases sign with
        | range => exact goesOn
        | _ => exact .blamed _ _
      | _ => exact .blamed _ _

theorem agrees_nameList (views : cursor.Views window) :
    Agrees (Left window.tokens) (nameList cursor) (Grammar.nameList window) := by
  obtain ⟨before, tokens⟩ := window
  refine agrees_expect_bind views ?_
  rintro opening rest rfl -
  exact (agrees_namesUpToClose views.next views.next.rounds).mono fun _ _ read =>
    ⟨read.1, read.2.1, read.2.2.trans (List.suffix_cons _ _)⟩

/-- An import is read from the cursor after its first token. -/
theorem agrees_importing (views : cursor.Views ⟨before, token :: rest⟩) :
    Agrees Eq (importing cursor.next) (Grammar.importing token ⟨token.line, rest⟩) := by
  have after := views.next
  rw [importing, Grammar.importing]
  refine Agrees.bind_by (fun first second => first.1 = second.1 ∧ first.2.1 = second.2.1 ∧ first.2.2.Views second.2.2) ?_ ?_
  · rw [moduleName, after.peek]
    cases rest with
    | nil =>
      have back : cursor.next.moved (cursor.next.index - 1) = cursor := rfl
      dsimp only [List.head?_nil]
      rw [back, views.found]
      exact views.refuse _
    | cons next more =>
      dsimp only [List.head?_cons]
      cases next.kind with
      | identifier | string => exact .ok ⟨rfl, rfl, after.next⟩
      | _ =>
        have back : cursor.next.next.moved (cursor.next.next.index - 1) = cursor.next := rfl
        dsimp only
        rw [back, after.found]
        exact after.refuse _
  · rintro ⟨name, origin, rest⟩ ⟨_, _, rest'⟩ ⟨rfl, rfl, left⟩
    have left : rest.Views rest' := left
    refine Agrees.bind_by (fun first second => first.1 = second.1 ∧ first.2.Views second.2) ?_ ?_
    · dsimp only
      rw [left.nextKind]
      by_cases isAs : rest'.nextKind = some (.keyword .asWord)
      · rw [isAs, if_pos (by rfl)]
        refine (agrees_expect (left.next_of_nextKind isAs) .identifier .afterAs).bind ?_
        rintro ⟨name, rest⟩ ⟨_, rest'⟩ ⟨rfl, left, -⟩
        exact .ok ⟨rfl, left⟩
      · rw [if_neg (by simpa using isAs)]
        split
        · exact absurd ‹_› isAs
        · exact .ok ⟨rfl, left⟩
    · rintro ⟨alias?, rest⟩ ⟨_, rest'⟩ ⟨rfl, left⟩
      have left : rest.Views rest' := left
      refine Agrees.bind_by (fun first second => first.1 = second.1 ∧ first.2.Views second.2) ?_ ?_
      · rw [left.nextKind]
        by_cases isExposing : rest'.nextKind = some (.keyword .exposingWord)
        · rw [isExposing, if_pos (by rfl)]
          exact (agrees_nameList (left.next_of_nextKind isExposing)).mono fun _ _ read => ⟨read.1, read.2.1⟩
        · rw [if_neg (by simpa using isExposing)]
          split
          · exact absurd ‹_› isExposing
          · exact .ok ⟨rfl, left⟩
      · rintro ⟨exposing, rest⟩ ⟨_, rest'⟩ ⟨rfl, left⟩
        refine (agrees_expectEnd left _).bind ?_
        rintro _ _ -
        exact .value _

theorem agrees_exposing (views : cursor.Views window) : Agrees Eq (exposing cursor) (Grammar.exposing window) := by
  refine (agrees_nameList views).bind ?_
  rintro ⟨names, rest⟩ ⟨_, rest'⟩ ⟨rfl, left, -⟩
  refine (agrees_expectEnd left _).bind ?_
  rintro _ _ -
  exact .value _

/-! ## Types -/

theorem agrees_typedField {opening : Nat} {range : Nat × Nat} (opener : Checked.item cursor.tokens opening = .ok token)
    (views : (cursor.between range.1 range.2).Views window) :
    Agrees Eq (typedField cursor.tokens opening range) (Grammar.typedField token.line window) := by
  have slice : Checked.slice cursor.tokens range.1 range.2 = .ok window.tokens := views.slice
  obtain ⟨before, tokens⟩ := window
  rw [typedField, access_bind slice]
  match tokens with
  | [] =>
    dsimp only [List.head?_nil]
    rw [access_bind opener]
    exact .blamed _ _
  | [_] | [_, _] => exact .blamed _ _
  | name :: colon :: first :: rest =>
    refine .ite (fun _ => ?_) fun _ => .blamed _ _
    refine (agrees_typeOf (first :: rest)).bind ?_
    rintro type _ rfl
    exact .value _

theorem agrees_typedFields (views : cursor.Views window) :
    Agrees (Left window.tokens.tail) (typedFields cursor) (Grammar.typedFields window) := by
  obtain ⟨before, tokens⟩ := window
  refine agrees_expect_bind views ?_
  rintro opening rest rfl opens
  dsimp only
  rw [closing_curly views opens]
  cases found : Token.splitClose .openCurly .closeCurly 0 rest with
  | none => exact .blamed _ _
  | some cut =>
    have whole := Token.splitClose_eq found
    obtain ⟨inside, after⟩ := views.next.cut whole
    have opener : Checked.item cursor.tokens cursor.index = .ok opening := views.head
    have among := Cut.after_suffix whole
    obtain ⟨ranges, read, sees⟩ := parts_eq (.inl rfl) inside
    have read : parts cursor.tokens (cursor.index + 1) (cursor.index + 1 + cut.inside.length) .comma = .ok ranges := read
    have fields : Agrees Eq (ranges.mapM (typedField cursor.tokens cursor.index))
        ((Window.splitOutside ⟨opening.line, cut.inside⟩ .comma).mapM (Grammar.typedField opening.line)) :=
      .mapM (sees.imp fun range window one => agrees_typedField opener one.1)
    dsimp only
    rw [pure_bind]
    cases empty : cut.inside.isEmpty with
    | true =>
      rw [if_neg (by simp_all), if_pos rfl]
      exact .left _ after among
    | false =>
      rw [if_pos (by simp_all [List.length_pos_iff]), if_neg (by simp), access_bind read]
      refine fields.bind ?_
      rintro fields _ rfl
      exact .left _ after among

theorem agrees_tag (views : cursor.Views window) : Agrees (Left window.tokens.tail) (tag cursor) (Grammar.tag window) := by
  refine (agrees_expect views .identifier .asTag).bind ?_
  rintro ⟨name, rest⟩ ⟨_, rest'⟩ ⟨rfl, left, among⟩
  have left : rest.Views rest' := left
  dsimp only
  rw [left.nextKind]
  by_cases opens : rest'.nextKind = some .openCurly
  · rw [opens, if_pos (by rfl)]
    refine (agrees_typedFields left).bind ?_
    rintro ⟨fields, ending⟩ ⟨_, ending'⟩ ⟨rfl, left, among'⟩
    exact .left _ left ((among'.trans (List.tail_suffix _)).trans among)
  · rw [if_neg (by simpa using opens)]
    split
    · exact absurd ‹_› opens
    · exact .left _ left among

theorem agrees_tags {round : Nat} (views : cursor.Views window) (long : window.tokens.length < round) :
    Agrees (Left window.tokens) (tags round cursor) (Grammar.tags window) := by
  induction round generalizing cursor window with
  | zero => simp at long
  | succ round step =>
    rw [tags, Grammar.tags_eq]
    refine (agrees_tag views).bind ?_
    rintro ⟨first, ending⟩ ⟨_, ending'⟩ ⟨rfl, left, among⟩
    have left : ending.Views ending' := left
    have among : ending'.tokens <:+ window.tokens := among.trans (List.tail_suffix _)
    dsimp only
    rw [left.nextKind]
    by_cases goesOn : ending'.nextKind = some .pipe
    · rw [goesOn, if_pos (by rfl)]
      have shorter : ending'.tokens.tail.length < round := by
        have most := among.length_le
        cases tokens : ending'.tokens with
        | nil => simp [Window.nextKind, tokens] at goesOn
        | cons bar more =>
          rw [tokens, List.length_cons] at most
          rw [List.tail_cons]
          omega
      refine (step (left.next_of_nextKind goesOn) shorter).bind ?_
      rintro ⟨others, final⟩ ⟨_, final'⟩ ⟨rfl, left, among'⟩
      exact .left _ left ((among'.trans (List.tail_suffix _)).trans among)
    · rw [if_neg (by simpa using goesOn)]
      split
      · exact absurd ‹_› goesOn
      · exact .left _ left among

theorem agrees_unionType (views : cursor.Views window) : Agrees Eq (unionType cursor) (Grammar.unionType window) := by
  refine (agrees_expect views .identifier .afterType).bind ?_
  rintro ⟨name, rest⟩ ⟨_, rest'⟩ ⟨rfl, left, -⟩
  obtain ⟨ending, read, left, -⟩ := takeNames_eq left
  dsimp only at read left ⊢
  rw [read, pure_bind]
  refine (agrees_expect left .assign (.afterTypeName name.body)).bind ?_
  rintro ⟨_, rest⟩ ⟨_, rest'⟩ ⟨-, left, -⟩
  refine (agrees_tags left left.rounds).bind ?_
  rintro ⟨tags, rest⟩ ⟨_, rest'⟩ ⟨rfl, left, -⟩
  refine (agrees_expectEnd left _).bind ?_
  rintro _ _ -
  exact .value _

theorem agrees_typeAlias (views : cursor.Views window) : Agrees Eq (typeAlias cursor) (Grammar.typeAlias window) := by
  refine (agrees_expect views .identifier .afterAlias).bind ?_
  rintro ⟨name, rest⟩ ⟨_, rest'⟩ ⟨rfl, left, -⟩
  obtain ⟨ending, read, left, -⟩ := takeNames_eq left
  dsimp only at read left ⊢
  rw [read, pure_bind]
  refine (agrees_expect left .assign (.afterAliasName name.body)).bind ?_
  rintro ⟨_, rest⟩ ⟨_, rest'⟩ ⟨-, left, -⟩
  refine (agrees_typedFields left).bind ?_
  rintro ⟨properties, rest⟩ ⟨_, rest'⟩ ⟨rfl, left, -⟩
  refine (agrees_expectEnd left _).bind ?_
  rintro _ _ -
  exact .value _

/-! ## Definitions -/

theorem agrees_optionalSignature (name : Token) (views : cursor.Views window) :
    Agrees (Left window.tokens) (optionalSignature name cursor) (Grammar.optionalSignature name window) := by
  obtain ⟨before, tokens⟩ := window
  rw [optionalSignature, views.nextKind]
  cases tokens with
  | nil => exact .left _ views (List.suffix_refl _)
  | cons colon rest =>
    refine .ite (fun _ => ?_) fun _ => .left _ views (List.suffix_refl _)
    have found : Checked.firstIndex (fun index => do
        let token ← Checked.item cursor.tokens index
        if token.kind == .identifier && token.body == name.body then startsLine cursor.tokens index else return false)
        (cursor.stop - (cursor.index + 1)) (cursor.index + 1) =
        .ok ((Token.splitDefinition name.body colon rest).map fun cut => cursor.index + 1 + cut.inside.length) := by
      have count : cursor.stop - (cursor.index + 1) = rest.length := views.next.length
      rw [count]
      obtain ⟨done, after, rfl, -, -⟩ := views
      exact firstDefinition_eq name.body done colon rest after
    rw [access_bind found]
    cases defined : Token.splitDefinition name.body colon rest with
    | none => exact .blamed _ _
    | some cut =>
      have whole := Token.splitDefinition_eq defined
      obtain ⟨inside, after⟩ := views.next.cut whole
      have slice : Checked.slice cursor.tokens (cursor.index + 1) (cursor.index + 1 + cut.inside.length) = .ok cut.inside :=
        inside.slice
      dsimp only [Option.map_some]
      rw [access_bind slice]
      refine (agrees_signature cut.inside).bind ?_
      rintro types _ rfl
      exact .left _ after ((Cut.after_suffix whole).trans (List.suffix_cons _ _))

theorem agrees_typed (name : String) (line : Nat) (types : List Ty) (arguments : List String) (body : Body) :
    Agrees Eq (typed name line types arguments body) (Grammar.typed name line types arguments body) := by
  cases arguments with
  | nil =>
    rw [typed, if_pos List.isEmpty_nil, access_bind (soleType_eq types)]
    exact .value _
  | cons argument arguments =>
    rw [typed, if_neg (by simp)]
    exact .ofParsed _

/-- Bodies are read by index as their windows are, up to a weight. -/
def BodiesAgree (bound : Nat) (read : Cursor → Guarded Body) (read' : Window → Parsed Body) : Prop :=
  ∀ {cursor : Cursor} {window : Window}, cursor.Views window → window.weight ≤ bound → Agrees Eq (read cursor) (read' window)

variable {read : Cursor → Guarded Body} {read' : Window → Parsed Body}

theorem agrees_definition (agree : BodiesAgree bound read read') (name : Token) (views : cursor.Views window)
    (light : window.weight ≤ bound) : Agrees Eq (definition read name cursor) (Grammar.definition read' name window) := by
  refine (agrees_optionalSignature name views).bind ?_
  rintro ⟨types?, rest⟩ ⟨_, rest'⟩ ⟨rfl, left, among⟩
  obtain ⟨ending, taken, left, among'⟩ := takeNames_eq left
  dsimp only at taken left among ⊢
  rw [taken, pure_bind]
  refine (agrees_expect left .assign (.inDefinition name.body)).bind ?_
  rintro ⟨_, further⟩ ⟨_, further'⟩ ⟨-, left, among''⟩
  have lighter : further'.weight ≤ bound :=
    (Window.weight_le_of_sublist (((among''.trans (List.tail_suffix _)).trans among').trans among).sublist).trans light
  refine (agree left lighter).bind ?_
  rintro body _ rfl
  cases types? with
  | none => exact .value _
  | some types => exact agrees_typed _ _ _ _ _

theorem agrees_blockWith (agree : BodiesAgree bound read read') (views : cursor.Views window) (light : window.weight ≤ bound) :
    Agrees Eq (blockWith read cursor) (Grammar.blockWith read' window) := by
  obtain ⟨before, tokens⟩ := window
  rw [blockWith, views.peek]
  cases tokens with
  | nil => exact views.refuse _
  | cons token rest =>
    have after := views.next
    have lighter : Window.weight ⟨token.line, rest⟩ ≤ bound :=
      (Window.weight_le_of_sublist (List.sublist_cons_self _ _)).trans light
    dsimp only [Grammar.blockWith, List.head?_cons]
    cases token.kind with
    | keyword word =>
      cases word with
      | importWord => exact agrees_importing views
      | exposingWord => exact agrees_exposing after
      | typeWord =>
        have second : (cursor.peekAt 1).map Token.kind = Window.nextKind ⟨token.line, rest⟩ := by
          rw [views.peekAt]
          cases rest <;> rfl
        dsimp only
        rw [second]
        by_cases isAlias : Window.nextKind ⟨token.line, rest⟩ = some (.keyword .aliasWord)
        · rw [isAlias, if_pos (by rfl)]
          exact agrees_typeAlias (after.next_of_nextKind isAlias)
        · rw [if_neg (by simpa using isAlias)]
          split
          · exact absurd ‹_› isAlias
          · exact agrees_unionType after
      | _ => exact views.refuse _
    | identifier => exact agrees_definition agree token after lighter
    | _ => exact views.refuse _

/-! ## Local definitions -/

theorem agrees_localDefinition (agree : BodiesAgree bound read read') {range : Nat × Nat}
    (views : (cursor.between range.1 range.2).Views window) (light : window.weight ≤ bound) :
    Agrees Eq (localDefinition read cursor range) (Grammar.localDefinition read' window) := by
  have block := agrees_blockWith agree views light
  obtain ⟨before, tokens⟩ := window
  cases tokens with
  | nil =>
    rw [localDefinition, blockWith, views.peek]
    exact views.refuse_bind _ _
  | cons first rest =>
    refine block.bind ?_
    rintro block _ rfl
    refine .ite (fun _ => .value _) fun _ => ?_
    have item : Checked.item cursor.tokens range.1 = .ok first := views.head
    rw [access_bind item]
    exact .blamed _ _

theorem agrees_localDefinitions (agree : BodiesAgree bound read read') (views : cursor.Views window)
    (light : window.weight ≤ bound) :
    Agrees Eq (localDefinitions read cursor) (Grammar.localDefinitions read' window) := by
  obtain ⟨before, tokens⟩ := window
  have stop := views.stop
  rw [localDefinitions]
  cases tokens with
  | nil =>
    have finished : cursor.stop ≤ cursor.index := Nat.le_of_eq stop
    rw [if_pos finished]
    exact views.refuse _
  | cons first rest =>
    obtain ⟨ranges, read, sees⟩ := splitBlocks_eq views
    rw [if_neg (by rw [stop, List.length_cons]; omega), access_bind read]
    exact .mapM (sees.imp fun range window one =>
      agrees_localDefinition agree one.1 ((Window.weight_le_of_sublist one.2).trans light))

/-- Where nothing is left, there is no expression to read. -/
theorem expressionStep_nil (readers : Readers) (views : cursor.Views ⟨before, []⟩) :
    expressionStep readers cursor = cursor.refuse .missingExpression := by
  rw [expressionStep, chain, operand, views.peek]
  rfl

theorem bodyStep_nil (readers : Readers) (views : cursor.Views ⟨before, []⟩) :
    bodyStep readers cursor = cursor.refuse .missingExpression := by
  rw [bodyStep, views.nextKind, if_neg (by simp [Window.nextKind]), expressionStep_nil readers views]
  rfl

theorem agrees_bodyStep {readers : Readers} {nested : Nested} (agree : readers.Agree bound nested) (views : cursor.Views window)
    (light : window.weight ≤ bound + 1) : Agrees Eq (bodyStep readers cursor) (Grammar.bodyStep nested window) := by
  have whole := agrees_expressionStep agree views light
  obtain ⟨before, tokens⟩ := window
  cases tokens with
  | nil =>
    rw [bodyStep_nil readers views]
    exact views.refuse _
  | cons token rest =>
    rw [bodyStep, views.nextKind]
    refine .ite (fun _ => ?_) fun _ => ?_
    · have middle : findKeyword cursor (cursor.index + 1) .inWord .letWord none =
          .ok ((Token.splitKeyword .inWord .letWord .inWord 0 rest).map fun cut => cursor.index + 1 + cut.inside.length) :=
        findKeyword_eq views.next .inWord .letWord none
      rw [access_bind middle]
      cases found : Token.splitKeyword .inWord .letWord .inWord 0 rest with
      | none => exact views.refuse _
      | some cut =>
        have whole := Token.splitKeyword_eq found
        obtain ⟨inside, after⟩ := views.next.cut whole
        refine (agrees_localDefinitions agree.body inside (Window.light_of_sublist light (Cut.inside_sublist whole))).bind ?_
        rintro locals _ rfl
        refine (agree.expression after (Window.light_of_sublist light (Cut.after_suffix whole).sublist)).bind ?_
        rintro result _ rfl
        exact .value _
    · refine whole.bind ?_
      rintro result _ rfl
      exact .value _

/-! ## The knot -/

/-- **As deep as a window weighs, no reading runs out of depth,** and a spare level does not change what is read. -/
theorem readers_agree {depth depth' : Nat} (deep : bound ≤ depth) (deep' : bound ≤ depth') :
    Readers.Agree bound ⟨expressionAt (depth + 1), bodyAt (depth + 1)⟩ ⟨Grammar.expressionAt depth', Grammar.bodyAt depth'⟩ := by
  induction bound generalizing depth depth' with
  | zero =>
    constructor <;> intro cursor window views light
    · rw [Window.nil_of_weight light] at views ⊢
      have missing : Grammar.expressionAt depth' ⟨window.before, []⟩ = Window.error ⟨window.before, []⟩ .missingExpression := by
        cases depth' <;> rfl
      dsimp only
      rw [expressionAt, expressionStep_nil _ views, missing]
      exact views.refuse _
    · rw [Window.nil_of_weight light] at views ⊢
      have missing : Grammar.bodyAt depth' ⟨window.before, []⟩ = Window.error ⟨window.before, []⟩ .missingExpression := by
        cases depth' <;> rfl
      dsimp only
      rw [bodyAt, bodyStep_nil _ views, missing]
      exact views.refuse _
  | succ bound step =>
    cases depth with
    | zero => exact absurd deep (by simp)
    | succ depth =>
      cases depth' with
      | zero => exact absurd deep' (by simp)
      | succ depth' =>
        have inner := step (Nat.le_of_succ_le_succ deep) (Nat.le_of_succ_le_succ deep')
        exact ⟨fun views light => agrees_expressionStep inner views light, fun views light => agrees_bodyStep inner views light⟩

/-! ## Modules -/

theorem agrees_blockOfTokens (enclosed : ∀ token ∈ tokens, token.Enclosed) :
    Agrees Eq (blockOfTokens tokens) (Grammar.blockOfTokens tokens) := by
  have enclosed' : ∀ token ∈ Token.significant tokens, token.Enclosed :=
    fun token member => enclosed token (Token.of_mem_significant member)
  have bodies : BodiesAgree (Window.weight ⟨0, Token.significant tokens⟩) (bodyAt (Cursor.start (Token.significant tokens)).depth)
      Grammar.body :=
    fun views light => (readers_agree light (Nat.le_refl _)).body views (Nat.le_refl _)
  have read : Agrees Eq
      (if (Token.significant tokens).isEmpty then return none
        else some <$> blockWith (bodyAt (Cursor.start (Token.significant tokens)).depth) (Cursor.start (Token.significant tokens)) :
        Guarded (Option Block))
      (if (Token.significant tokens).isEmpty then .ok none
        else some <$> Grammar.block ⟨lineOf (Token.significant tokens), Token.significant tokens⟩) :=
    .ite (fun _ => .value _) fun _ =>
      (agrees_blockWith bodies (Cursor.views_start enclosed') (Nat.le_refl _)).map fun _ _ same => congrArg some same
  unfold blockOfTokens Grammar.blockOfTokens
  match tokens with
  | [] => exact read
  | [token] =>
    dsimp only
    cases token.kind with
    | comment | multilineComment => exact .value _
    | _ => exact read
  | _ :: _ :: _ => exact read

/-- The declarations of a list of tokens are cut out of it. -/
theorem splitBlocks_tokens (enclosed : ∀ token ∈ tokens, token.Enclosed) :
    ∃ ranges, splitBlocks tokens 0 tokens.length = .ok ranges ∧
      List.Forall₂ (fun range own => Checked.slice tokens range.1 range.2 = .ok own ∧ ∀ token ∈ own, token.Enclosed) ranges
        ((Grammar.splitBlocks ⟨1, tokens⟩).map Window.tokens) := by
  cases tokens with
  | nil => exact ⟨[], rfl, .nil⟩
  | cons first rest =>
    obtain ⟨ranges, read, sees⟩ := splitBlocks_eq (Cursor.views_start enclosed)
    have same : (Grammar.splitBlocks ⟨1, first :: rest⟩).map Window.tokens =
        (Grammar.splitBlocks ⟨lineOf (first :: rest), first :: rest⟩).map Window.tokens := tokens_blocksFrom _ _ _ _ _ _
    rw [same]
    refine ⟨ranges, read, List.forall₂_map_right_iff.mpr (sees.imp fun range window one => ?_)⟩
    exact ⟨one.1.slice, one.1.enclosed⟩

end

variable (source name : String)

theorem tokenize_ok : tokenize source = .ok (DerwLang.tokenize source) :=
  tokenizeAt_ok source 1 1

/-- Several computations make no access in vain when none of them does. -/
theorem mapM_ok {α β γ : Type} {compute : α → Checked γ} {result : β → γ} {inputs : List α} {others : List β}
    (each : List.Forall₂ (fun input other => compute input = .ok (result other)) inputs others) :
    inputs.mapM compute = .ok (others.map result) := by
  induction each with
  | nil => rfl
  | cons one _ step =>
    rw [List.mapM_cons, one, Checked.ok_bind, step]
    rfl

/-- **Every source declares the module that is read from its windows, and each access on the way is in range.** -/
theorem parseModule_ok : parseModule source name = .ok (DerwLang.parseModule source name) := by
  have enclosed : ∀ token ∈ (DerwLang.tokenize source).filter fun token => token.kind != .whitespace, token.Enclosed :=
    fun token member => body_of_isListLiteral (List.mem_of_mem_filter member)
  obtain ⟨ranges, read, cut⟩ := splitBlocks_tokens enclosed
  rw [parseModule, tokenize_ok, Checked.ok_bind]
  dsimp only
  rw [read, Checked.ok_bind]
  rw [mapM_ok (cut.imp fun range own one => ?_)]
  · rfl
  · rw [one.1, Checked.ok_bind]
    exact (agrees_blockOfTokens one.2).run_eq

theorem parseExpression_ok : parseExpression source = .ok (DerwLang.parseExpression source) := by
  have views := Cursor.views_start (enclosed_tokenizeAt source 1 1)
  rw [parseExpression, tokenize_ok, Checked.ok_bind]
  exact ((readers_agree (Nat.le_refl _) (Nat.le_refl _)).expression views (Nat.le_refl _)).run_eq

/-- **The front end never misses.** Whatever the source, its tokens are found, the segments of any of its tokens as an
annotation, its module and its expression: no index and no slice reaches outside, no slice cuts a character, no counter falls
below zero, and no loop outlasts its input. -/
theorem front_end_ok (tokens : List Token) (line column : Nat) :
    tokenize source = .ok (DerwLang.tokenize source) ∧
      tokenizeAt source line column = .ok (DerwLang.tokenizeAt source line column) ∧
      typeSegments tokens = .ok (TypeSegment.ofTokens tokens) ∧
      parseModule source name = .ok (DerwLang.parseModule source name) ∧
      parseExpression source = .ok (DerwLang.parseExpression source) :=
  ⟨tokenize_ok source, tokenizeAt_ok source line column, typeSegments_ok tokens, parseModule_ok source name,
    parseExpression_ok source⟩

end DerwLang.Indexed
