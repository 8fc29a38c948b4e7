/-
**Types and patterns by index.**

An annotation nests in fewer and fewer tokens, so as many levels as it has tokens are enough (`agrees_signature`). A pattern is
read from the window that its cursor sees (`agrees_pattern`).
-/

import DerwLang.Indexed.Pattern
import DerwLang.Indexed.Type
import DerwLang.Proofs.Indexed.Cursor
import DerwLang.Proofs.Lines.Type
import DerwLang.Proofs.Reading.Unfolding

namespace DerwLang.Indexed

open Grammar (typeOfParts unquote)

/-! ## Types -/

theorem soleType_eq (types : List Ty) : soleType types = .ok (typeOfParts types) := by
  match types with
  | [] | [_] | _ :: _ :: _ => rfl

theorem closingRound_eq (depth index : Nat) (tokens : List Token) :
    closingRound tokens (depth + 1) index =
      .ok ((Token.splitClose .openBracket .closeBracket depth tokens).map fun cut => index + cut.inside.length) := by
  induction tokens generalizing depth index with
  | nil => rfl
  | cons token rest step =>
    have further (depth : Nat) : closingRound rest (depth + 1) (index + 1) =
        .ok (((Token.splitClose .openBracket .closeBracket depth rest).map (Cut.push token)).map fun cut =>
          index + cut.inside.length) := by
      rw [step, map_push]
    rw [closingRound, Token.splitClose.eq_def]
    dsimp only
    cases token.kind with
    | openBracket => exact further (depth + 1)
    | closeBracket =>
      cases depth with
      | zero => rfl
      | succ depth =>
        dsimp only
        rw [Checked.minus_one]
        exact further depth
    | _ => exact further depth

section Types

variable {nested : List Token → Guarded (List Ty)} {nested' : List Token → Parsed (List Ty)} {bound line : Nat}

/-- The arguments are read from their index on, when annotations of fewer tokens are. -/
theorem agrees_typeArguments (agrees : ∀ inner : List Token, inner.length < bound → Agrees Eq (nested inner) (nested' inner))
    (head : String) {round : Nat} {done rest : List Token} (short : rest.length ≤ bound) (long : rest.length < round) :
    Agrees Eq (typeArguments nested head (done ++ rest) round done.length) (Grammar.typeArguments nested' head rest) := by
  induction round generalizing done rest with
  | zero => simp at long
  | succ round step =>
    cases rest with
    | nil =>
      rw [typeArguments, if_neg (by simp), Grammar.typeArguments]
      exact .value _
    | cons token rest =>
      rw [List.length_cons] at short long
      have later : Agrees Eq (typeArguments nested head (done ++ token :: rest) round (done.length + 1))
          (Grammar.typeArguments nested' head rest) := by
        have later : Agrees Eq (typeArguments nested head (done ++ [token] ++ rest) round (done ++ [token]).length) _ :=
          step (by omega) (by omega)
        rwa [List.append_assoc, List.length_append] at later
      rw [typeArguments, if_pos (by simp), access_bind (item_append done rest token)]
      cases kind : token.kind with
      | identifier =>
        rw [Grammar.typeArguments]
        simp only [kind]
        refine later.bind ?_
        rintro others _ rfl
        exact .value _
      | openBracket =>
        have found : closingRound ((done ++ token :: rest).drop done.length) 0 done.length =
            .ok ((Token.splitClose .openBracket .closeBracket 0 rest).map fun cut => done.length + 1 + cut.inside.length) := by
          rw [List.drop_left, closingRound, kind]
          exact closingRound_eq 0 (done.length + 1) rest
        rw [Grammar.typeArguments_openBracket nested' head kind]
        dsimp only
        rw [access_bind found]
        cases cut? : Token.splitClose .openBracket .closeBracket 0 rest with
        | none => exact .blamed _ _
        | some cut =>
          have whole := Token.splitClose_eq cut?
          have shorter := congrArg List.length whole
          simp only [Cut.all, List.length_append, List.length_cons] at shorter
          have split_ : done ++ token :: rest = done ++ [token] ++ (cut.inside ++ (cut.token :: cut.after)) := by simp [← whole, Cut.all]
          have inner : Checked.slice (done ++ token :: rest) (done.length + 1) (done.length + 1 + cut.inside.length) =
              .ok cut.inside := by
            have slice := slice_append (done ++ [token]) cut.inside (cut.token :: cut.after)
            rwa [← split_, List.length_append, List.length_singleton] at slice
          have left : Agrees Eq (typeArguments nested head (done ++ token :: rest) round (done.length + 1 + cut.inside.length + 1))
              (Grammar.typeArguments nested' head cut.after) := by
            have left : Agrees Eq (typeArguments nested head (done ++ [token] ++ (cut.inside ++ [cut.token]) ++ cut.after) round
                (done ++ [token] ++ (cut.inside ++ [cut.token])).length) _ := step (by omega) (by omega)
            simpa [← whole, Cut.all, Nat.add_assoc, Nat.add_comm 1] using left
          dsimp only [Option.map_some]
          rw [access_bind inner]
          refine (agrees cut.inside (by omega)).bind ?_
          rintro types _ rfl
          rw [access_bind (soleType_eq types)]
          refine left.bind ?_
          rintro others _ rfl
          exact .value _
      | _ =>
        rw [Grammar.typeArguments]
        simp only [kind]
        exact .blamed _ _

theorem agrees_namedType {tokens : List Token} (agrees : ∀ inner : List Token, inner.length < bound → Agrees Eq (nested inner) (nested' inner))
    (short : tokens.length ≤ bound) : Agrees Eq (namedType nested line tokens) (Grammar.namedType nested' line tokens) := by
  cases tokens with
  | nil => exact .blamed _ _
  | cons head rest =>
    refine .ite (fun _ => ?_) fun _ => .blamed _ _
    have arguments : Agrees Eq (typeArguments nested head.body ([] ++ rest) (rest.length + 1) 0) _ :=
      agrees_typeArguments agrees head.body (Nat.le_of_succ_le short) (Nat.lt_succ_self _)
    refine arguments.bind ?_
    rintro types _ rfl
    cases types <;> exact .value _

/-- The tokens of a segment are no more than those it is made from, and fewer if it is a function type. -/
theorem length_classify (tokens : List Token) :
    (TypeSegment.classify tokens).tokens.length ≤ tokens.length ∧
      ∀ inner, TypeSegment.classify tokens = .function inner → inner.length < tokens.length := by
  fun_induction TypeSegment.classify tokens with
  | case1 =>
    refine ⟨Nat.le_refl _, fun inner same => ?_⟩
    cases same
  | case2 tokens inner found =>
    have := TypeSegment.length_withoutBrackets found
    exact ⟨Nat.le_of_lt this, by rintro _ ⟨⟩; exact this⟩
  | case3 tokens inner found _ step =>
    have := TypeSegment.length_withoutBrackets found
    exact ⟨by omega, fun other same => (step.2 other same).trans this⟩

theorem agrees_segmentType {segment : TypeSegment}
    (agrees : ∀ inner : List Token, inner.length < bound → Agrees Eq (nested inner) (nested' inner))
    (short : segment.tokens.length ≤ bound) (shorter : ∀ inner, segment = .function inner → inner.length < bound) :
    Agrees Eq (segmentType nested line segment) (Grammar.segmentType nested' line segment) := by
  cases segment with
  | plain tokens => exact agrees_namedType agrees short
  | function tokens => exact (agrees tokens (shorter tokens rfl)).map fun _ _ same => congrArg Ty.function same

/-- The parts between arrows have no more tokens than there are. -/
theorem length_splitFrom (depth : Nat) (tokens : List Token) :
    ∀ part ∈ TypeSegment.splitFrom depth tokens, part.length ≤ tokens.length := by
  induction tokens generalizing depth with
  | nil => simp [TypeSegment.splitFrom]
  | cons token rest step =>
    rw [splitFrom_cons]
    split
    · rw [List.forall_mem_cons]
      exact ⟨Nat.zero_le _, fun part member => (step 0 part member).trans (Nat.le_succ _)⟩
    · obtain ⟨part, more, parts, -⟩ := arrowParts_eq [] [] rest (depthAfter token depth)
      have each := step (depthAfter token depth)
      rw [parts, List.forall_mem_cons] at each
      rw [parts, List.forall_mem_cons]
      exact ⟨Nat.succ_le_succ each.1, fun other member => (each.2 other member).trans (Nat.le_succ _)⟩

theorem length_ofTokens {tokens : List Token} {segments : List TypeSegment} (found : TypeSegment.ofTokens tokens = .ok segments) :
    ∀ segment ∈ segments, segment.tokens.length ≤ tokens.length ∧
      ∀ inner, segment = .function inner → inner.length < tokens.length := by
  have fewer : (Token.significant tokens).length ≤ tokens.length := List.length_filter_le _ _
  rw [TypeSegment.ofTokens] at found
  split at found
  · cases found
  · split at found
    · cases found
    · split at found
      · cases found
      · cases found
        rw [List.forall_mem_map]
        intro part member
        have short := length_splitFrom 0 _ part member
        obtain ⟨own, inner⟩ := length_classify part
        exact ⟨by omega, fun other same => (inner other same).trans_le (by omega)⟩

theorem agrees_signatureStep {tokens : List Token}
    (agrees : ∀ inner : List Token, inner.length < tokens.length → Agrees Eq (nested inner) (nested' inner)) :
    Agrees Eq (signatureStep nested tokens) (Grammar.signatureStep nested' tokens) := by
  rw [signatureStep, access_bind (typeSegments_ok tokens), Grammar.signatureStep]
  cases found : TypeSegment.ofTokens tokens with
  | error error => exact .blamed _ _
  | ok segments =>
    refine .mapM (List.forall₂_same.mpr fun segment member => ?_)
    obtain ⟨short, shorter⟩ := length_ofTokens found segment member
    exact agrees_segmentType agrees short shorter

theorem agrees_signatureAt {depth : Nat} {tokens : List Token} (short : tokens.length ≤ depth) :
    Agrees Eq (signatureAt (depth + 1) tokens) (Grammar.signatureAt depth tokens) := by
  induction depth generalizing tokens with
  | zero =>
    obtain rfl : tokens = [] := by simpa using short
    exact .error _
  | succ depth step => exact agrees_signatureStep fun inner shorter => step (by omega)

/-- **Every signature is read, and each access to its tokens is in range.** -/
theorem agrees_signature (tokens : List Token) : Agrees Eq (signature tokens) (Grammar.signature tokens) :=
  agrees_signatureAt (Nat.le_refl _)

theorem agrees_typeOf (tokens : List Token) : Agrees Eq (typeOf tokens) (Grammar.typeOf tokens) := by
  rw [typeOf, Grammar.typeOf, map_eq_pure_bind]
  refine (agrees_signature tokens).bind ?_
  rintro types _ rfl
  rw [soleType_eq]
  exact .value _

end Types

/-! ## Patterns -/

/-- **Between the brackets of a list literal characters are cut where they meet.** -/
theorem chars_enclosed {token : Token} (enclosed : token.Enclosed) (isList : Grammar.isListLiteral token = true) :
    ∃ stop, Checked.minus (Checked.bytes token.body.toList) 1 = .ok stop ∧
      Checked.chars token.body.toList 1 stop = .ok (unquote token.body).toList := by
  have whole : token.body.toList = ['['] ++ ((unquote token.body).toList ++ [']']) := by
    conv => lhs; rw [enclosed isList]
    simp
  have size : Checked.bytes token.body.toList = Checked.bytes (['['] ++ (unquote token.body).toList) + 1 := by
    rw [whole, ← List.append_assoc, Checked.bytes_append]
    rfl
  refine ⟨Checked.bytes (['['] ++ (unquote token.body).toList), ?_, ?_⟩
  · rw [size, Checked.minus_one]
  · conv => lhs; rw [whole]
    exact Checked.chars_append ['['] _ _

theorem isEmptyList_eq {token : Token} (enclosed : token.Enclosed) : isEmptyList token = .ok (Grammar.isEmptyList token) := by
  rw [isEmptyList, Grammar.isEmptyList]
  cases isList : Grammar.isListLiteral token with
  | false => rfl
  | true =>
    obtain ⟨stop, minus, chars⟩ := chars_enclosed enclosed isList
    rw [if_pos rfl, minus, Checked.ok_bind, chars]
    rfl

section Patterns

variable {cursor : Cursor} {window : Window} {before : Nat} {tokens : List Token}

/-- After a field the bracket closes, or a comma has to come before further ones. -/
theorem patternFields_name (tag : String) (before : Nat) {token : Token} (isName : token.kind = .identifier) (rest : List Token) :
    Grammar.patternFields tag before (token :: rest) =
      if Window.nextKind ⟨token.line, rest⟩ == some .closeCurly then do
        let (fields, after) ← Grammar.patternFields tag token.line rest
        return (token.body :: fields, after)
      else do
        let (_, further) ← Window.expect ⟨token.line, rest⟩ .comma .betweenFields
        let (fields, after) ← Grammar.patternFields tag further.before further.tokens
        return (token.body :: fields, after) := by
  rw [Grammar.patternFields.eq_def]
  simp only [isName]
  cases rest with
  | nil => rfl
  | cons next more =>
    by_cases closes : next.kind = .closeCurly
    · rw [if_pos (by simp [Window.nextKind, closes]), Grammar.patternFields.eq_def]
      simp only [closes]
      rfl
    · rw [if_neg (by simpa [Window.nextKind] using closes), Window.expect]
      by_cases comma : next.kind = .comma
      · simp only [comma]
        rfl
      · have noComma : ¬ (next.kind == .comma) = true := by simpa using comma
        dsimp only
        rw [if_neg noComma]
        split
        · exact absurd ‹_› closes
        · exact absurd ‹_› comma
        · rfl

/-- Fields are read in no more rounds than there are tokens. -/
theorem agrees_patternFields (tag : String) {round : Nat} (views : cursor.Views ⟨before, tokens⟩) (long : tokens.length < round) :
    Agrees (Left tokens) (patternFields tag round cursor) (Grammar.patternFields tag before tokens) := by
  induction round generalizing cursor before tokens with
  | zero => simp at long
  | succ round step =>
    rw [patternFields, views.peek]
    cases tokens with
    | nil => exact views.refuse _
    | cons token rest =>
      have after := views.next
      cases kind : token.kind with
      | closeCurly =>
        rw [Grammar.patternFields.eq_def]
        simp only [kind, List.head?_cons]
        exact .left _ after (List.suffix_cons _ _)
      | identifier =>
        rw [patternFields_name tag before kind, List.head?_cons]
        simp only [kind]
        rw [after.nextKind]
        refine .ite (fun _ => ?_) fun _ => ?_
        · refine (step after (Nat.lt_of_succ_lt_succ long)).bind ?_
          rintro ⟨fields, ending⟩ ⟨_, ending'⟩ ⟨rfl, left, among⟩
          exact .left _ left (among.trans (List.suffix_cons _ _))
        · refine (agrees_expect after .comma .betweenFields).bind ?_
          rintro ⟨comma, further⟩ ⟨_, further'⟩ ⟨rfl, left, among⟩
          refine (step left ?_).bind ?_
          · have fewer : further'.tokens.length ≤ rest.length := among.length_le.trans (List.length_tail ▸ Nat.sub_le _ _)
            exact fewer.trans_lt (Nat.lt_of_succ_lt_succ long)
          · rintro ⟨fields, ending⟩ ⟨_, ending'⟩ ⟨rfl, left, among'⟩
            exact .left _ left ((among'.trans among).trans ((List.tail_suffix _).trans (List.suffix_cons _ _)))
      | _ =>
        rw [Grammar.patternFields.eq_def]
        simp only [kind, List.head?_cons]
        exact .blamed _ _

theorem agrees_tagPattern (tag : String) (views : cursor.Views window) :
    Agrees (Left window.tokens) (tagPattern tag cursor) (Grammar.tagPattern tag window) := by
  obtain ⟨before, tokens⟩ := window
  rw [tagPattern, views.nextKind]
  cases tokens with
  | nil => exact .left _ views (List.suffix_refl _)
  | cons token rest =>
    by_cases opens : (token.kind == .openCurly) = true
    · rw [if_pos (by simpa [Window.nextKind] using opens)]
      simp only [Grammar.tagPattern]
      rw [if_pos opens]
      refine (agrees_patternFields tag views.next views.next.rounds).bind ?_
      rintro ⟨fields, ending⟩ ⟨_, ending'⟩ ⟨rfl, left, among⟩
      exact .left _ left (among.trans (List.suffix_cons _ _))
    · rw [if_neg (by simpa [Window.nextKind] using opens)]
      simp only [Grammar.tagPattern]
      rw [if_neg opens]
      exact .left _ views (List.suffix_refl _)

theorem agrees_singlePattern (views : cursor.Views window) :
    Agrees Eq (singlePattern cursor) (Grammar.singlePattern window) := by
  obtain ⟨before, tokens⟩ := window
  rw [singlePattern, patternHead, views.peek]
  cases tokens with
  | nil => exact views.refuse_bind _ _
  | cons token rest =>
    have after := views.next
    have enclosed := views.enclosed token List.mem_cons_self
    dsimp only [Grammar.singlePattern, List.head?_cons]
    refine Agrees.bind_by (Left rest) ?_ ?_
    · cases token.kind with
      | string | formatString => exact .left _ after (List.suffix_refl _)
      | literal =>
        dsimp only
        rw [access_bind (isEmptyList_eq enclosed)]
        exact .ite (fun _ => .left _ after (List.suffix_refl _)) fun _ => .blamed _ _
      | keyword word =>
        cases word with
        | defaultWord => exact .left _ after (List.suffix_refl _)
        | _ => exact .blamed _ _
      | identifier =>
        refine .ite (fun _ => ?_) fun _ => .blamed _ _
        refine (agrees_tagPattern token.body after).bind ?_
        rintro ⟨pattern, ending⟩ ⟨_, ending'⟩ ⟨rfl, left, among⟩
        exact .left _ left among
      | _ => exact .blamed _ _
    · rintro ⟨pattern, ending⟩ ⟨_, ending'⟩ ⟨rfl, left, -⟩
      refine (agrees_expectEnd left .pattern).bind ?_
      rintro _ _ -
      exact .value _

theorem agrees_listPart (views : cursor.Views window) :
    Agrees (Left window.tokens) (listPart cursor) (Grammar.listPart window) := by
  obtain ⟨before, tokens⟩ := window
  rw [listPart, views.peek]
  cases tokens with
  | nil => exact views.refuse _
  | cons token rest =>
    have after := views.next
    have enclosed := views.enclosed token List.mem_cons_self
    dsimp only [Grammar.listPart, List.head?_cons]
    refine Agrees.bind_by (Left rest) ?_ ?_
    · cases token.kind with
      | string | formatString => exact .left _ after (List.suffix_refl _)
      | literal =>
        dsimp only
        rw [access_bind (isEmptyList_eq enclosed)]
        exact .ite (fun _ => .left _ after (List.suffix_refl _)) fun _ => .blamed _ _
      | identifier =>
        refine .ite (fun _ => ?_) fun _ => .ite (fun _ => .blamed _ _) fun _ => .left _ after (List.suffix_refl _)
        refine (agrees_tagPattern token.body after).bind ?_
        rintro ⟨pattern, ending⟩ ⟨_, ending'⟩ ⟨rfl, left, among⟩
        exact .left _ left among
      | _ => exact .blamed _ _
    · rintro ⟨part, ending⟩ ⟨_, ending'⟩ ⟨rfl, left, among⟩
      refine (agrees_expectEnd left .listPart).bind ?_
      rintro _ _ -
      exact .left _ left (among.trans (List.suffix_cons _ _))

theorem agrees_listParts {ranges : List (Nat × Nat)} {windows : List Window}
    (sees : List.Forall₂ (Sees cursor.tokens tokens) ranges windows) :
    Agrees Eq (listParts cursor ranges) (Grammar.listParts windows) := by
  induction sees with
  | nil => exact .value []
  | @cons range window ranges windows one others step =>
    refine (agrees_listPart one.1).bind ?_
    rintro ⟨part, ending⟩ ⟨_, ending'⟩ ⟨rfl, views, -⟩
    have last : ranges.isEmpty = windows.isEmpty := by cases others <;> rfl
    dsimp only
    rw [last]
    refine .ite (fun _ => views.refuse _) fun _ => ?_
    refine step.bind ?_
    rintro others _ rfl
    exact .value _

/-- A kind is among the tokens if they are cut there. -/
theorem any_kind_eq (kind : Token.Kind) (tokens : List Token) :
    (tokens.any fun token => token.kind == kind) = (Token.splitKind kind tokens).isSome := by
  induction tokens with
  | nil => rfl
  | cons token rest step =>
    rw [List.any_cons, Token.splitKind]
    by_cases found : (token.kind == kind) = true
    · rw [if_pos found, found]
      rfl
    · rw [if_neg found, Option.isSome_map, ← step, Bool.eq_false_iff.mpr found, Bool.false_or]

/-- **A pattern is read by index as its window is.** -/
theorem agrees_pattern (views : cursor.Views window) : Agrees Eq (pattern cursor) (Grammar.pattern window) := by
  rw [pattern, access_bind (findKind_eq views _), Grammar.pattern, any_kind_eq]
  cases Token.splitKind (.operator .cons) window.tokens with
  | none => exact agrees_singlePattern views
  | some cut =>
    obtain ⟨ranges, found, sees⟩ := parts_eq (.inr rfl) views
    dsimp only [Option.map_some]
    rw [access_bind found]
    exact (agrees_listParts sees).map fun _ _ same => congrArg Pattern.list same

end Patterns

end DerwLang.Indexed
