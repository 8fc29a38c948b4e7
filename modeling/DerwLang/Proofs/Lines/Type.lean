/-
**Types and patterns further down.**

A signature is cut into segments by the kinds of its tokens alone, and so is a pattern into its parts. What is read of them
does not depend on where they stand (`lowers_signature`, `lowers_typeOf`, `lowers_pattern`).
-/

import DerwLang.Proofs.Lines.Lowered
import DerwLang.Proofs.Reading.Unfolding

namespace DerwLang

open Grammar

variable {lines : Set Nat} {count : Nat}

/-! ## Segments -/

namespace TypeSegment

/-- The tokens of a segment. -/
def tokens : TypeSegment → List Token
  | .plain tokens | .function tokens => tokens

/-- The segment `count` lines further down. -/
def lowered (count : Nat) : TypeSegment → TypeSegment
  | .plain tokens => .plain (tokens.map (Token.lowered count))
  | .function tokens => .function (tokens.map (Token.lowered count))

theorem balancedFrom_lowered (depth : Nat) (tokens : List Token) :
    balancedFrom depth (tokens.map (Token.lowered count)) = balancedFrom depth tokens := by
  induction tokens generalizing depth with
  | nil => rfl
  | cons token rest step =>
    unfold balancedFrom
    simp only [List.map_cons, Token.kind_lowered, step]

theorem splitFrom_lowered (depth : Nat) (tokens : List Token) :
    splitFrom depth (tokens.map (Token.lowered count)) = (splitFrom depth tokens).map (List.map (Token.lowered count)) := by
  fun_induction splitFrom depth tokens with
  | case1 => rfl
  | case2 depth token rest arrow step =>
    rw [List.map_cons, splitFrom, if_pos (by exact arrow), step]
    rfl
  | case3 depth token rest other inner none_ step =>
    rw [none_] at step
    simp only [List.map_cons, splitFrom, Token.kind_lowered, other, if_false, Bool.false_eq_true]
    rw [show splitFrom _ (rest.map (Token.lowered count)) = _ from step]
    rfl
  | case4 depth token rest other inner part more found step =>
    rw [found] at step
    simp only [List.map_cons, splitFrom, Token.kind_lowered, other, if_false, Bool.false_eq_true]
    rw [show splitFrom _ (rest.map (Token.lowered count)) = _ from step]
    rfl

theorem forall_splitFrom {P : Token → Prop} {tokens : List Token} (depth : Nat) (each : ∀ token ∈ tokens, P token) :
    ∀ part ∈ splitFrom depth tokens, ∀ token ∈ part, P token := by
  fun_induction splitFrom depth tokens with
  | case1 => simp
  | case2 depth token rest arrow step =>
    rw [List.forall_mem_cons] at each ⊢
    exact ⟨by simp, step each.2⟩
  | case3 depth token rest other inner none_ step =>
    rw [List.forall_mem_cons] at each
    simpa using each.1
  | case4 depth token rest other inner part more found step =>
    rw [List.forall_mem_cons] at each
    have parts := step each.2
    rw [found, List.forall_mem_cons] at parts
    rw [List.forall_mem_cons]
    exact ⟨List.forall_mem_cons.mpr ⟨each.1, parts.1⟩, parts.2⟩

theorem map_cons_lowered (token : Token) (inner? : Option (List Token)) :
    (inner?.map (token :: ·)).map (List.map (Token.lowered count)) =
      (inner?.map (List.map (Token.lowered count))).map (token.lowered count :: ·) := by
  cases inner? <;> rfl

theorem beforeLastClose_lowered (depth : Nat) (tokens : List Token) :
    beforeLastClose depth (tokens.map (Token.lowered count)) =
      (beforeLastClose depth tokens).map (List.map (Token.lowered count)) := by
  induction tokens generalizing depth with
  | nil => rfl
  | cons token rest step =>
    cases rest with
    | nil =>
      cases depth <;> cases kind : token.kind <;> simp [beforeLastClose, kind]
    | cons next more =>
      cases depth <;> cases kind : token.kind <;>
        simp only [List.map_cons, beforeLastClose, Token.kind_lowered, kind, map_cons_lowered, Option.map_none] <;>
        rw [← step] <;> rfl

theorem mem_of_beforeLastClose {depth : Nat} {tokens inner : List Token} (found : beforeLastClose depth tokens = some inner) :
    ∀ token ∈ inner, token ∈ tokens := by
  fun_induction beforeLastClose depth tokens generalizing inner with
  | case1 | case3 | case4 => simp at found
  | case2 =>
    obtain rfl := Option.some.inj found
    simp
  | case5 _ token rest _ _ step | case6 _ token rest _ _ step | case7 _ token rest _ _ _ _ step =>
    obtain ⟨more, smaller, rfl⟩ := Option.map_eq_some_iff.mp found
    rw [List.forall_mem_cons]
    exact ⟨List.mem_cons_self, fun other member => List.mem_cons_of_mem _ (step smaller other member)⟩

theorem withoutBrackets_lowered (tokens : List Token) :
    withoutBrackets (tokens.map (Token.lowered count)) = (withoutBrackets tokens).map (List.map (Token.lowered count)) := by
  cases tokens with
  | nil => rfl
  | cons token rest =>
    simp only [List.map_cons, withoutBrackets, Token.kind_lowered, beforeLastClose_lowered]
    split <;> rfl

theorem mem_of_withoutBrackets {tokens inner : List Token} (found : withoutBrackets tokens = some inner) :
    ∀ token ∈ inner, token ∈ tokens := by
  cases tokens with
  | nil => simp [withoutBrackets] at found
  | cons token rest =>
    rw [withoutBrackets] at found
    split at found
    · exact fun other member => List.mem_cons_of_mem _ (mem_of_beforeLastClose found other member)
    · simp at found

theorem classify_lowered (tokens : List Token) :
    classify (tokens.map (Token.lowered count)) = (classify tokens).lowered count := by
  fun_induction classify tokens with
  | case1 tokens none_ =>
    rw [classify]
    split
    · rfl
    · rename_i inner found
      simp [withoutBrackets_lowered, none_] at found
  | case2 tokens inner found several =>
    rw [classify]
    split
    · rename_i none_
      simp [withoutBrackets_lowered, found] at none_
    · rename_i inner' found'
      obtain rfl : inner.map (Token.lowered count) = inner' := by simpa [withoutBrackets_lowered, found] using found'
      rw [if_pos (by rw [split, splitFrom_lowered, List.length_map]; exact several)]
      rfl
  | case3 tokens inner found single step =>
    rw [classify]
    split
    · rename_i none_
      simp [withoutBrackets_lowered, found] at none_
    · rename_i inner' found'
      obtain rfl : inner.map (Token.lowered count) = inner' := by simpa [withoutBrackets_lowered, found] using found'
      rw [if_neg (by rw [split, splitFrom_lowered, List.length_map]; exact single), step]

theorem mem_of_classify (tokens : List Token) : ∀ token ∈ (classify tokens).tokens, token ∈ tokens := by
  fun_induction classify tokens with
  | case1 => exact fun _ member => member
  | case2 tokens inner found several => exact mem_of_withoutBrackets found
  | case3 tokens inner found single step => exact fun token member => mem_of_withoutBrackets found token (step token member)

/-- The segments of an annotation, or the same refusal, further down. -/
theorem ofTokens_lowered (tokens : List Token) :
    ofTokens (tokens.map (Token.lowered count)) = (ofTokens tokens).map (List.map (lowered count)) := by
  have noPart : ((split (Token.significant tokens)).map (List.map (Token.lowered count))).any List.isEmpty =
      (split (Token.significant tokens)).any List.isEmpty := by
    rw [List.any_map]
    exact congrArg _ (funext fun part => List.isEmpty_map)
  have segments : ((split (Token.significant tokens)).map (List.map (Token.lowered count))).map classify =
      ((split (Token.significant tokens)).map classify).map (lowered count) := by
    rw [List.map_map, List.map_map]
    exact congrArg (List.map · _) (funext classify_lowered)
  have parts : split ((Token.significant tokens).map (Token.lowered count)) =
      (split (Token.significant tokens)).map (List.map (Token.lowered count)) := splitFrom_lowered 0 _
  have even : balanced ((Token.significant tokens).map (Token.lowered count)) = balanced (Token.significant tokens) :=
    balancedFrom_lowered 0 _
  unfold ofTokens
  simp only [Token.significant_lowered, Token.text_lowered, List.isEmpty_map, parts, even, noPart, segments]
  cases (Token.significant tokens).isEmpty <;> cases balanced (Token.significant tokens) <;>
    cases (split (Token.significant tokens)).any List.isEmpty <;> rfl

theorem forall_ofTokens {P : Token → Prop} {tokens : List Token} {segments : List TypeSegment}
    (found : ofTokens tokens = .ok segments) (each : ∀ token ∈ tokens, P token) :
    ∀ segment ∈ segments, ∀ token ∈ segment.tokens, P token := by
  have parts : (split (Token.significant tokens)).map classify = segments := by
    unfold ofTokens at found
    dsimp only at found
    split at found
    · cases found
    · split at found
      · cases found
      · split at found
        · cases found
        · exact Except.ok.inj found
  subst parts
  intro segment member token inside
  obtain ⟨part, among, rfl⟩ := List.mem_map.mp member
  exact forall_splitFrom 0 (fun other seen => each other (Token.of_mem_significant seen)) part among token
    (mem_of_classify part token inside)

end TypeSegment

/-! ## Types -/

/-- The line of the first token, which is a line of its own if there is one. -/
theorem lineOf_lowered {tokens : List Token} (some_ : tokens ≠ []) :
    lineOf (tokens.map (Token.lowered count)) = lineOf tokens + count := by
  cases tokens with
  | nil => exact absurd rfl some_
  | cons token rest => rfl

theorem lineOf_mem {tokens : List Token} (some_ : tokens ≠ []) (on : ∀ token ∈ tokens, token.On lines) :
    lineOf tokens ∈ lines := by
  cases tokens with
  | nil => exact absurd rfl some_
  | cons token rest => exact (on token List.mem_cons_self).line

/-- Annotations are read further down as they are here. -/
def LowersTypes (lines : Set Nat) (count : Nat) (read : List Token → Parsed (List Ty)) : Prop :=
  ∀ {tokens}, (∀ token ∈ tokens, token.On lines) →
    Lowers lines count Eq (read tokens) (read (tokens.map (Token.lowered count)))

section Types

variable {nested : List Token → Parsed (List Ty)} {tokens : List Token} {line : Nat}

theorem lowers_typeArguments (lowers : LowersTypes lines count nested) (head : String)
    (on : ∀ token ∈ tokens, token.On lines) :
    Lowers lines count Eq (typeArguments nested head tokens)
      (typeArguments nested head (tokens.map (Token.lowered count))) := by
  induction size : tokens.length using Nat.strongRecOn generalizing tokens with
  | _ size step =>
    cases tokens with
    | nil =>
      rw [List.map_nil, typeArguments]
      exact .value []
    | cons token rest =>
      obtain ⟨own, later⟩ := List.forall_mem_cons.mp on
      rw [List.length_cons] at size
      by_cases opens : token.kind = .openBracket
      · rw [List.map_cons, typeArguments_openBracket _ _ opens, typeArguments_openBracket _ _ (by exact opens),
          splitClose_lowered]
        cases found : Token.splitClose .openBracket .closeBracket 0 rest with
        | none => exact .blamed _ own.line
        | some cut =>
          have whole := Token.splitClose_eq found
          obtain ⟨inside, -, after⟩ := Cut.forall_of_all whole later
          have shorter := congrArg List.length whole
          simp only [Cut.all, List.length_append, List.length_cons] at shorter
          refine (lowers inside).bind ?_
          rintro types _ rfl
          refine (step cut.after.length (by omega) after rfl).bind ?_
          rintro others _ rfl
          exact .value _
      · rw [List.map_cons, typeArguments, typeArguments, Token.kind_lowered]
        cases kind : token.kind with
        | identifier =>
          refine (step rest.length (by omega) later rfl).bind ?_
          rintro others _ rfl
          exact .value _
        | openBracket => exact absurd kind opens
        | _ => exact .blamed _ own.line

theorem lowers_namedType (lowers : LowersTypes lines count nested) (known : line ∈ lines)
    (on : ∀ token ∈ tokens, token.On lines) :
    Lowers lines count Eq (namedType nested line tokens)
      (namedType nested (line + count) (tokens.map (Token.lowered count))) := by
  cases tokens with
  | nil => exact .blamed _ known
  | cons head rest =>
    obtain ⟨own, later⟩ := List.forall_mem_cons.mp on
    refine .ite (fun isName => ?_) fun _ => .blamed _ own.line
    refine (lowers_typeArguments lowers head.body later).bind ?_
    rintro types _ rfl
    cases types <;> exact .value _

theorem lowers_segmentType (lowers : LowersTypes lines count nested) (known : line ∈ lines) {segment : TypeSegment}
    (on : ∀ token ∈ segment.tokens, token.On lines) :
    Lowers lines count Eq (segmentType nested line segment) (segmentType nested (line + count) (segment.lowered count)) := by
  cases segment with
  | plain tokens => exact lowers_namedType lowers known on
  | function tokens => exact (lowers on).map fun _ _ same => congrArg Ty.function same

/-- An annotation without tokens is blamed on the first line, and any other on its own. -/
theorem lowersTypes_step (lowers : LowersTypes lines count nested) : LowersTypes lines count (signatureStep nested) := by
  intro tokens on
  unfold signatureStep
  rw [TypeSegment.ofTokens_lowered]
  cases some_ : tokens with
  | nil => exact .error (.unplaced rfl)
  | cons token rest =>
    rw [← some_]
    have filled : tokens ≠ [] := by simp [some_]
    rw [lineOf_lowered filled]
    have known := lineOf_mem filled on
    cases found : TypeSegment.ofTokens tokens with
    | error error => exact .blamed _ known
    | ok segments =>
      exact .mapM fun segment member =>
        lowers_segmentType lowers known (TypeSegment.forall_ofTokens found on segment member)

theorem lowersTypes_signatureAt (depth : Nat) : LowersTypes lines count (signatureAt depth) := by
  induction depth with
  | zero =>
    intro tokens on
    cases tokens with
    | nil => exact .error (.unplaced rfl)
    | cons token rest => exact .blamed _ (on token List.mem_cons_self).line
  | succ depth step => exact lowersTypes_step step

/-- **A signature is read further down as it is here.** -/
theorem lowers_signature : LowersTypes lines count signature := by
  intro tokens on
  unfold signature
  rw [List.length_map]
  exact lowersTypes_signatureAt _ on

theorem lowers_typeOf (on : ∀ token ∈ tokens, token.On lines) :
    Lowers lines count Eq (typeOf tokens) (typeOf (tokens.map (Token.lowered count))) :=
  (lowers_signature on).map fun _ _ same => congrArg typeOfParts same

end Types

/-! ## Patterns -/

section Patterns

variable {before : Nat} {tokens : List Token} {window : Window}

theorem lowers_patternFields (tag : String) (known : before ∈ lines) (on : ∀ token ∈ tokens, token.On lines) :
    Lowers lines count (Left lines count) (patternFields tag before tokens)
      (patternFields tag (before + count) (tokens.map (Token.lowered count))) := by
  induction size : tokens.length using Nat.strongRecOn generalizing before tokens with
  | _ size step =>
    cases tokens with
    | nil => exact .blamed _ known
    | cons token rest =>
      obtain ⟨own, later⟩ := List.forall_mem_cons.mp on
      rw [List.map_cons, patternFields.eq_def, patternFields.eq_def]
      dsimp only [Token.kind_lowered]
      cases token.kind with
      | closeCurly => exact .left _ ⟨own.line, later⟩
      | identifier =>
        cases rest with
        | nil => exact .blamed _ own.line
        | cons next more =>
          obtain ⟨own', later'⟩ := List.forall_mem_cons.mp later
          simp only [List.length_cons] at size
          simp only [List.map_cons, Token.kind_lowered]
          cases next.kind with
          | closeCurly => exact .left _ ⟨own'.line, later'⟩
          | comma =>
            refine (step more.length (by omega) own'.line later' rfl).bind ?_
            rintro ⟨fields, after⟩ _ ⟨left, rfl⟩
            exact .left _ left
          | _ => exact .blamed _ own'.line
      | _ => exact .blamed _ own.line

theorem lowers_tagPattern (tag : String) (on : window.On lines) :
    Lowers lines count (Left lines count) (tagPattern tag window) (tagPattern tag (window.lowered count)) := by
  obtain ⟨before, tokens⟩ := window
  cases tokens with
  | nil => exact .left _ on
  | cons token rest =>
    obtain ⟨own, later⟩ := List.forall_mem_cons.mp on.tokens
    refine .ite (fun opens => ?_) fun _ => .left _ on
    refine (lowers_patternFields tag own.line later).bind ?_
    rintro ⟨fields, after⟩ _ ⟨left, rfl⟩
    exact .left _ left

theorem lowers_singlePattern (on : window.On lines) :
    Lowers lines count Eq (singlePattern window) (singlePattern (window.lowered count)) := by
  obtain ⟨before, tokens⟩ := window
  cases tokens with
  | nil => exact .here on _
  | cons token rest =>
    obtain ⟨own, later⟩ := List.forall_mem_cons.mp on.tokens
    have after : Window.On lines ⟨token.line, rest⟩ := ⟨own.line, later⟩
    simp only [singlePattern, Window.lowered, List.map_cons, Token.kind_lowered, Token.body_lowered]
    refine Lowers.bind_by (Left lines count) ?_ ?_
    · cases token.kind with
      | string | formatString => exact .left _ after
      | literal => exact .ite (fun _ => .left _ after) fun _ => .blamed _ own.line
      | keyword word =>
        cases word with
        | defaultWord => exact .left _ after
        | _ => exact .blamed _ own.line
      | identifier =>
        refine .ite (fun capital => ?_) fun _ => .blamed _ own.line
        refine (lowers_tagPattern token.body after).bind ?_
        rintro ⟨pattern, ending⟩ _ ⟨left, rfl⟩
        exact .left _ left
      | _ => exact .blamed _ own.line
    · rintro ⟨pattern, ending⟩ _ ⟨left, rfl⟩
      refine (lowers_expectEnd left _).bind ?_
      rintro _ _ rfl
      exact .value _

theorem lowers_listPart (on : window.On lines) :
    Lowers lines count (Left lines count) (listPart window) (listPart (window.lowered count)) := by
  obtain ⟨before, tokens⟩ := window
  cases tokens with
  | nil => exact .here on _
  | cons token rest =>
    obtain ⟨own, later⟩ := List.forall_mem_cons.mp on.tokens
    have after : Window.On lines ⟨token.line, rest⟩ := ⟨own.line, later⟩
    simp only [listPart, Window.lowered, List.map_cons, Token.kind_lowered, Token.body_lowered]
    refine Lowers.bind_by (Left lines count) ?_ ?_
    · cases token.kind with
      | string | formatString => exact .left _ after
      | literal => exact .ite (fun _ => .left _ after) fun _ => .blamed _ own.line
      | identifier =>
        refine .ite (fun capital => ?_) fun _ => .ite (fun _ => .blamed _ own.line) fun _ => .left _ after
        refine (lowers_tagPattern token.body after).bind ?_
        rintro ⟨pattern, ending⟩ _ ⟨left, rfl⟩
        exact .left _ left
      | _ => exact .blamed _ own.line
    · rintro ⟨part, ending⟩ _ ⟨left, rfl⟩
      refine (lowers_expectEnd left _).bind ?_
      rintro _ _ rfl
      exact .left _ left

theorem lowers_listParts {windows : List Window} (on : ∀ window ∈ windows, window.On lines) :
    Lowers lines count Eq (listParts windows) (listParts (windows.map (Window.lowered count))) := by
  induction windows with
  | nil => exact .value []
  | cons window more step =>
    rw [List.forall_mem_cons] at on
    rw [List.map_cons, listParts, listParts]
    refine (lowers_listPart on.1).bind ?_
    rintro ⟨part, ending⟩ _ ⟨left, rfl⟩
    dsimp only
    rw [List.isEmpty_map]
    refine .ite (fun _ => .here left _) fun _ => ?_
    refine (step on.2).bind ?_
    rintro others _ rfl
    exact .value _

/-- **A pattern is read further down as it is here.** -/
theorem lowers_pattern (on : window.On lines) :
    Lowers lines count Eq (pattern window) (pattern (window.lowered count)) := by
  have same : (window.lowered count).tokens.any (fun token => token.kind == .operator .cons) =
      window.tokens.any fun token => token.kind == .operator .cons := by
    simp only [Window.lowered, List.any_map, Function.comp_def, Token.kind_lowered]
  unfold pattern
  rw [same, splitOutside_lowered]
  exact .ite (fun _ => (lowers_listParts (on.splitOutside _)).map fun _ _ same => congrArg Pattern.list same)
    fun _ => lowers_singlePattern on

end Patterns

end DerwLang
