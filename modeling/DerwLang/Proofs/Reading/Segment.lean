/-
**The segments of an annotation, exactly.**

Here round brackets are paired by a grammar (`Paired`), and an arrow stands outside of them when they are paired in front of
it (`HasOuterArrow`). Three scans with counters of their own decide about the same brackets: one tells whether they are
paired, one cuts at the outer arrows, and one takes brackets off. In terms of the grammar:

* `balanced_iff`, `one_lt_length_split_iff`, `withoutBrackets_eq_some_iff`: what each of the scans decides;
* `classify_iff`: what stands in the segment of a part;
* `ofTokens_exact`: when an annotation is refused, and what its segments are when it is not.
-/

import DerwLang.Proofs.Indexed.TypeSegment
import Mathlib.Data.List.Forall2

namespace DerwLang.TypeSegment

variable {tokens inner part rest : List Token} {token opening closing : Token}

/-! ## Paired brackets -/

/-- Each round bracket has its partner, and pairs do not cross. -/
inductive Paired : List Token → Prop
  | nil : Paired []
  | cons {token : Token} {rest : List Token} (noOpening : token.kind ≠ .openBracket)
      (noClosing : token.kind ≠ .closeBracket) (more : Paired rest) : Paired (token :: rest)
  | pair {opening closing : Token} {inside rest : List Token} (opens : opening.kind = .openBracket)
      (closes : closing.kind = .closeBracket) (inner : Paired inside) (more : Paired rest) :
      Paired (opening :: (inside ++ closing :: rest))

theorem Paired.append {first second : List Token} (one : Paired first) (two : Paired second) : Paired (first ++ second) := by
  induction one with
  | nil => exact two
  | cons noOpening noClosing _ step => exact .cons noOpening noClosing step
  | @pair opening closing inside rest opens closes inner _ _ step =>
    rw [List.cons_append, List.append_assoc, List.cons_append]
    exact .pair opens closes inner step

theorem balancedFrom_other (noOpening : token.kind ≠ .openBracket) (noClosing : token.kind ≠ .closeBracket)
    (depth : Nat) (rest : List Token) : balancedFrom depth (token :: rest) = balancedFrom depth rest := by
  simp [balancedFrom, noClosing]

theorem balancedFrom_opening (opens : token.kind = .openBracket) (depth : Nat) (rest : List Token) :
    balancedFrom depth (token :: rest) = balancedFrom (depth + 1) rest := by
  simp [balancedFrom, opens]

theorem balancedFrom_closing (closes : token.kind = .closeBracket) (depth : Nat) (rest : List Token) :
    balancedFrom (depth + 1) (token :: rest) = balancedFrom depth rest := by
  simp [balancedFrom, closes]

/-- Paired brackets leave the count of open ones as it is. -/
theorem Paired.balancedFrom_append (paired : Paired part) (depth : Nat) (rest : List Token) :
    balancedFrom depth (part ++ rest) = balancedFrom depth rest := by
  induction paired generalizing depth rest with
  | nil => rfl
  | @cons token more noOpening noClosing _ step =>
    rw [List.cons_append, balancedFrom_other noOpening noClosing]
    exact step depth rest
  | @pair opening closing inside more opens closes _ _ inner step =>
    rw [List.cons_append, List.append_assoc, List.cons_append, balancedFrom_opening opens, inner,
      balancedFrom_closing closes]
    exact step depth rest

/-- Where a bracket is open and all are closed at the end, the tokens up to its partner are paired. -/
theorem exists_partner {depth : Nat} (balanced : balancedFrom (depth + 1) tokens = true) :
    ∃ inside closing rest, tokens = inside ++ closing :: rest ∧ closing.kind = .closeBracket ∧ Paired inside ∧
      balancedFrom depth rest = true := by
  induction length : tokens.length using Nat.strongRecOn generalizing tokens depth with
  | _ size step =>
    cases tokens with
    | nil => simp [balancedFrom] at balanced
    | cons token more =>
      rw [List.length_cons] at length
      by_cases opens : token.kind = .openBracket
      · -- the partner of this bracket comes first, and what is sought is among the tokens after it
        rw [balancedFrom_opening opens] at balanced
        obtain ⟨own, last, after, rfl, isLast, ownPaired, later⟩ := step more.length (by omega) balanced rfl
        obtain ⟨next, closing, rest, rfl, closes, nextPaired, left⟩ :=
          step after.length (by rw [List.length_append, List.length_cons] at length; omega) later rfl
        exact ⟨token :: (own ++ last :: next), closing, rest, by simp, closes, .pair opens isLast ownPaired nextPaired, left⟩
      · by_cases closes : token.kind = .closeBracket
        · rw [balancedFrom_closing closes] at balanced
          exact ⟨[], token, more, rfl, closes, .nil, balanced⟩
        · rw [balancedFrom_other opens closes] at balanced
          obtain ⟨own, closing, rest, rfl, isClosing, paired, left⟩ := step more.length (by omega) balanced rfl
          exact ⟨token :: own, closing, rest, rfl, isClosing, .cons opens closes paired, left⟩

/-- **The scan for balance decides whether brackets are paired.** -/
theorem balanced_iff : balanced tokens = true ↔ Paired tokens := by
  constructor
  · intro balanced
    rw [TypeSegment.balanced] at balanced
    induction length : tokens.length using Nat.strongRecOn generalizing tokens with
    | _ size step =>
      cases tokens with
      | nil => exact .nil
      | cons token more =>
        rw [List.length_cons] at length
        by_cases opens : token.kind = .openBracket
        · rw [balancedFrom_opening opens] at balanced
          obtain ⟨inside, closing, rest, rfl, closes, paired, left⟩ := exists_partner balanced
          refine .pair opens closes paired (step rest.length ?_ left rfl)
          rw [List.length_append, List.length_cons] at length
          omega
        · by_cases closes : token.kind = .closeBracket
          · simp [balancedFrom, closes] at balanced
          · rw [balancedFrom_other opens closes] at balanced
            exact .cons opens closes (step more.length (by omega) balanced rfl)
  · intro paired
    have same := paired.balancedFrom_append 0 []
    rwa [List.append_nil] at same

/-! ## Outer arrows -/

/-- An arrow stands outside brackets: they are paired in front of it. -/
def HasOuterArrow (tokens : List Token) : Prop :=
  ∃ before arrow after, tokens = before ++ arrow :: after ∧ arrow.kind = .arrow ∧ Paired before

theorem not_hasOuterArrow_nil : ¬ HasOuterArrow [] := by
  rintro ⟨before, arrow, after, none, -⟩
  simp at none

theorem HasOuterArrow.cons (noOpening : token.kind ≠ .openBracket) (noClosing : token.kind ≠ .closeBracket)
    (has : HasOuterArrow tokens) : HasOuterArrow (token :: tokens) := by
  obtain ⟨before, arrow, after, rfl, isArrow, paired⟩ := has
  exact ⟨token :: before, arrow, after, rfl, isArrow, .cons noOpening noClosing paired⟩

theorem HasOuterArrow.pair (opens : opening.kind = .openBracket) (closes : closing.kind = .closeBracket)
    (paired : Paired inner) (has : HasOuterArrow tokens) : HasOuterArrow (opening :: (inner ++ closing :: tokens)) := by
  obtain ⟨before, arrow, after, rfl, isArrow, left⟩ := has
  exact ⟨opening :: (inner ++ closing :: before), arrow, after, by simp, isArrow, .pair opens closes paired left⟩

/-- There is always a first part. -/
theorem exists_splitFrom (depth : Nat) (tokens : List Token) : ∃ first more, splitFrom depth tokens = first :: more :=
  List.exists_cons_of_ne_nil (by fun_cases splitFrom depth tokens <;> simp)

theorem splitFrom_arrow (isArrow : token.kind = .arrow) (rest : List Token) :
    splitFrom 0 (token :: rest) = [] :: splitFrom 0 rest := by
  rw [Indexed.splitFrom_cons, if_pos (by simp [isArrow])]

/-- Any other token goes on with the first part. -/
theorem splitFrom_stays {depth : Nat} (stays : token.kind = .arrow → depth ≠ 0) (rest : List Token) :
    splitFrom depth (token :: rest) = (splitFrom (Indexed.depthAfter token depth) rest).modifyHead (token :: ·) := by
  obtain ⟨first, more, parts⟩ := exists_splitFrom (Indexed.depthAfter token depth) rest
  rw [Indexed.splitFrom_cons, if_neg (by simpa using stays), parts]
  rfl

theorem splitFrom_opening {depth : Nat} (opens : token.kind = .openBracket) (rest : List Token) :
    splitFrom depth (token :: rest) = (splitFrom (depth + 1) rest).modifyHead (token :: ·) := by
  rw [splitFrom_stays (by simp [opens]), Indexed.depthAfter, opens]

theorem splitFrom_closing {depth : Nat} (closes : token.kind = .closeBracket) (rest : List Token) :
    splitFrom (depth + 1) (token :: rest) = (splitFrom depth rest).modifyHead (token :: ·) := by
  rw [splitFrom_stays (by simp [closes]), Indexed.depthAfter, closes]
  rfl

theorem splitFrom_other {depth : Nat} (noOpening : token.kind ≠ .openBracket) (noClosing : token.kind ≠ .closeBracket)
    (stays : token.kind = .arrow → depth ≠ 0) (rest : List Token) :
    splitFrom depth (token :: rest) = (splitFrom depth rest).modifyHead (token :: ·) := by
  have same : Indexed.depthAfter token depth = depth := by
    rw [Indexed.depthAfter]
    cases kind : token.kind <;> first | rfl | contradiction
  rw [splitFrom_stays stays, same]

/-- Brackets stay in one part with what stands between them, if that stays in one part. -/
theorem splitFrom_pair {depth : Nat} (opens : opening.kind = .openBracket) (closes : closing.kind = .closeBracket)
    (stays : ∀ rest, splitFrom (depth + 1) (inner ++ rest) = (splitFrom (depth + 1) rest).modifyHead (inner ++ ·))
    (rest : List Token) :
    splitFrom depth (opening :: (inner ++ closing :: rest)) =
      (splitFrom depth rest).modifyHead fun first => opening :: (inner ++ closing :: first) := by
  rw [splitFrom_opening opens, stays, splitFrom_closing closes, List.modifyHead_modifyHead, List.modifyHead_modifyHead]
  rfl

/-- **Paired tokens without an outer arrow stay in one part.** Inside a bracket no arrow is an outer one. -/
theorem splitFrom_append {depth : Nat} (paired : Paired part) (stays : HasOuterArrow part → depth ≠ 0) (rest : List Token) :
    splitFrom depth (part ++ rest) = (splitFrom depth rest).modifyHead (part ++ ·) := by
  induction paired generalizing depth rest with
  | nil =>
    obtain ⟨first, more, parts⟩ := exists_splitFrom depth rest
    rw [List.nil_append, parts]
    rfl
  | @cons token more noOpening noClosing _ step =>
    have notOuter : token.kind = .arrow → depth ≠ 0 := fun isArrow => stays ⟨[], token, more, rfl, isArrow, .nil⟩
    rw [List.cons_append, splitFrom_other noOpening noClosing notOuter,
      step (fun has => stays (has.cons noOpening noClosing)), List.modifyHead_modifyHead]
    rfl
  | @pair opening closing inside more opens closes paired _ inner step =>
    rw [List.cons_append, List.append_assoc, List.cons_append,
      splitFrom_pair opens closes (inner fun _ => Nat.succ_ne_zero depth), step (fun has => stays (has.pair opens closes paired)),
      List.modifyHead_modifyHead]
    congr 1
    funext first
    simp

/-- Paired tokens in front of others do not make fewer parts. -/
theorem length_splitFrom_append (paired : Paired part) (rest : List Token) :
    (splitFrom 0 rest).length ≤ (splitFrom 0 (part ++ rest)).length := by
  induction paired with
  | nil => exact Nat.le_refl _
  | @cons token more noOpening noClosing _ step =>
    rw [List.cons_append]
    by_cases isArrow : token.kind = .arrow
    · rw [splitFrom_arrow isArrow, List.length_cons]
      exact step.trans (Nat.le_succ _)
    · rwa [splitFrom_other noOpening noClosing (fun same => absurd same isArrow), List.length_modifyHead]
  | @pair opening closing inside more opens closes paired _ _ step =>
    rwa [List.cons_append, List.append_assoc, List.cons_append,
      splitFrom_pair opens closes (splitFrom_append paired fun _ => Nat.succ_ne_zero 0), List.length_modifyHead]

theorem split_of_paired (paired : Paired part) (single : ¬ HasOuterArrow part) : split part = [part] := by
  have whole : splitFrom 0 (part ++ []) = (splitFrom 0 []).modifyHead (part ++ ·) :=
    splitFrom_append paired (fun has => absurd has single) []
  rw [List.append_nil] at whole
  rw [split, whole, splitFrom, List.modifyHead_cons, List.append_nil]

/-- **Cutting decides whether there is an outer arrow.** -/
theorem one_lt_length_split_iff (paired : Paired part) : 1 < (split part).length ↔ HasOuterArrow part := by
  constructor
  · intro several
    by_contra single
    rw [split_of_paired paired single] at several
    exact absurd several (by simp)
  · rintro ⟨before, arrow, after, rfl, isArrow, left⟩
    have fewer := length_splitFrom_append left (arrow :: after)
    obtain ⟨first, more, parts⟩ := exists_splitFrom 0 after
    rw [splitFrom_arrow isArrow, parts, List.length_cons, List.length_cons] at fewer
    rw [split]
    omega

/-! ## Parts -/

/-- The parts are what stands between the outer arrows, each with its brackets paired. -/
inductive ArrowParts : List Token → List (List Token) → Prop
  | last {part : List Token} (paired : Paired part) (single : ¬ HasOuterArrow part) : ArrowParts part [part]
  | cons {part rest : List Token} {parts : List (List Token)} {arrow : Token} (paired : Paired part)
      (single : ¬ HasOuterArrow part) (isArrow : arrow.kind = .arrow) (more : ArrowParts rest parts) :
      ArrowParts (part ++ arrow :: rest) (part :: parts)

variable {parts : List (List Token)}

theorem ArrowParts.paired (areParts : ArrowParts tokens parts) : Paired tokens := by
  induction areParts with
  | last paired _ => exact paired
  | cons paired _ isArrow _ step => exact paired.append (.cons (by simp [isArrow]) (by simp [isArrow]) step)

theorem ArrowParts.each_paired (areParts : ArrowParts tokens parts) : ∀ part ∈ parts, Paired part ∧ ¬ HasOuterArrow part := by
  induction areParts with
  | last paired single => exact List.forall_mem_singleton.mpr ⟨paired, single⟩
  | cons paired single _ _ step => exact List.forall_mem_cons.mpr ⟨⟨paired, single⟩, step⟩

/-- Cutting gives the parts. -/
theorem ArrowParts.split_eq (areParts : ArrowParts tokens parts) : split tokens = parts := by
  induction areParts with
  | last paired single => exact split_of_paired paired single
  | @cons part rest parts arrow paired single isArrow _ step =>
    rw [split] at step ⊢
    rw [splitFrom_append paired (fun has => absurd has single), splitFrom_arrow isArrow, step, List.modifyHead_cons,
      List.append_nil]

theorem not_hasOuterArrow_pair (opens : opening.kind = .openBracket) (closes : closing.kind = .closeBracket)
    (paired : Paired inner) : ¬ HasOuterArrow (opening :: (inner ++ [closing])) := by
  rw [← one_lt_length_split_iff (.pair opens closes paired .nil), split,
    splitFrom_pair opens closes (splitFrom_append paired fun _ => Nat.succ_ne_zero 0), splitFrom]
  simp

/-- What has no outer arrow goes on with the first part. -/
theorem ArrowParts.append (areParts : ArrowParts tokens (split tokens)) (paired : Paired part) (single : ¬ HasOuterArrow part) :
    ArrowParts (part ++ tokens) (split (part ++ tokens)) := by
  have stays {rest : List Token} : split (part ++ rest) = (split rest).modifyHead (part ++ ·) :=
    splitFrom_append paired (fun has => absurd has single) rest
  obtain ⟨first, more, cut⟩ : ∃ first more, split tokens = first :: more := exists_splitFrom 0 tokens
  rw [stays, cut, List.modifyHead_cons]
  rw [cut] at areParts
  obtain ⟨firstPaired, firstSingle⟩ := areParts.each_paired first List.mem_cons_self
  have whole : ¬ HasOuterArrow (part ++ first) := by
    rw [← one_lt_length_split_iff (paired.append firstPaired), stays, split_of_paired firstPaired firstSingle]
    simp
  cases areParts with
  | last => exact .last (paired.append firstPaired) whole
  | cons _ _ isArrow rest =>
    rw [← List.append_assoc]
    exact .cons (paired.append firstPaired) whole isArrow rest

/-- **Tokens with paired brackets have the parts that they are cut into.** -/
theorem Paired.arrowParts (paired : Paired tokens) : ArrowParts tokens (split tokens) := by
  induction paired with
  | nil => exact .last .nil not_hasOuterArrow_nil
  | @cons token more noOpening noClosing _ step =>
    by_cases isArrow : token.kind = .arrow
    · rw [split, splitFrom_arrow isArrow]
      exact .cons .nil not_hasOuterArrow_nil isArrow step
    · have single : ¬ HasOuterArrow [token] := by
        rintro ⟨before, arrow, after, alone, same, -⟩
        have among : arrow ∈ [token] := by rw [alone]; simp
        exact isArrow (List.mem_singleton.mp among ▸ same)
      exact step.append (.cons noOpening noClosing .nil) single
  | @pair opening closing inside more opens closes inner _ _ step =>
    have whole := step.append (.pair opens closes inner .nil) (not_hasOuterArrow_pair opens closes inner)
    rwa [List.cons_append, List.append_assoc, List.singleton_append] at whole

/-! ## Brackets around a part -/

/-- A pair of brackets stands around the tokens. -/
def BracketsAround (inner tokens : List Token) : Prop :=
  ∃ opening closing, tokens = opening :: (inner ++ [closing]) ∧ opening.kind = .openBracket ∧
    closing.kind = .closeBracket ∧ Paired inner

theorem BracketsAround.paired (around : BracketsAround inner tokens) : Paired tokens := by
  obtain ⟨opening, closing, rfl, opens, closes, inside⟩ := around
  exact .pair opens closes inside .nil

/-- No arrow is outside of the brackets. -/
theorem BracketsAround.single (around : BracketsAround inner tokens) : ¬ HasOuterArrow tokens := by
  obtain ⟨opening, closing, rfl, opens, closes, inside⟩ := around
  exact not_hasOuterArrow_pair opens closes inside

theorem beforeLastClose_opening {depth : Nat} (opens : token.kind = .openBracket) (more : rest ≠ []) :
    beforeLastClose depth (token :: rest) = (beforeLastClose (depth + 1) rest).map (token :: ·) := by
  cases depth <;> simp [beforeLastClose, opens, more]

theorem beforeLastClose_closing {depth : Nat} (closes : token.kind = .closeBracket) :
    beforeLastClose (depth + 1) (token :: rest) = (beforeLastClose depth rest).map (token :: ·) := by
  simp [beforeLastClose, closes]

theorem beforeLastClose_other {depth : Nat} (noOpening : token.kind ≠ .openBracket) (noClosing : token.kind ≠ .closeBracket)
    (more : rest ≠ []) : beforeLastClose depth (token :: rest) = (beforeLastClose depth rest).map (token :: ·) := by
  cases depth <;> simp [beforeLastClose, noClosing, more]

/-- The scan for the last bracket goes past paired tokens. -/
theorem beforeLastClose_append_of_paired {depth : Nat} (paired : Paired part) (more : rest ≠ []) :
    beforeLastClose depth (part ++ rest) = (beforeLastClose depth rest).map (part ++ ·) := by
  induction paired generalizing depth rest with
  | nil => simp
  | @cons token others noOpening noClosing _ step =>
    have left : others ++ rest ≠ [] := by simp [more]
    rw [List.cons_append, beforeLastClose_other noOpening noClosing left, step more, Option.map_map]
    rfl
  | @pair opening closing inside others opens closes _ _ inner step =>
    rw [List.cons_append, List.append_assoc, List.cons_append, beforeLastClose_opening opens (by simp),
      inner (List.cons_ne_nil _ _), beforeLastClose_closing closes, step more, Option.map_map, Option.map_map,
      Option.map_map]
    congr 1
    funext first
    simp

/-- **The scan for brackets finds a pair around the tokens.** -/
theorem withoutBrackets_eq_some_iff : withoutBrackets tokens = some inner ↔ BracketsAround inner tokens := by
  constructor
  · intro found
    cases tokens with
    | nil => cases found
    | cons token rest =>
      rw [withoutBrackets] at found
      split at found
      · rename_i opens
        obtain ⟨balanced, closing, closes, rfl⟩ := Indexed.beforeLastClose_append found
        exact ⟨token, closing, rfl, by simpa using opens, closes, balanced_iff.mp balanced⟩
      · cases found
  · rintro ⟨opening, closing, rfl, opens, closes, paired⟩
    rw [withoutBrackets, if_pos (by simpa using opens), beforeLastClose_append_of_paired paired (List.cons_ne_nil _ _)]
    simp [beforeLastClose, closes]

theorem withoutBrackets_eq_none_iff : withoutBrackets tokens = none ↔ ∀ inner, ¬ BracketsAround inner tokens := by
  simp only [Option.eq_none_iff_forall_ne_some, Ne, withoutBrackets_eq_some_iff]

/-- So many pairs of brackets stand around the tokens. -/
inductive Wraps : Nat → List Token → List Token → Prop
  | none {tokens : List Token} : Wraps 0 tokens tokens
  | pair {pairs : Nat} {inner middle tokens : List Token} (around : BracketsAround middle tokens)
      (more : Wraps pairs inner middle) : Wraps (pairs + 1) inner tokens

/-! ## Segments -/

/-- What a part is told to be: without the brackets around it, a function type if there is an outer arrow within them, and
else a plain type, without any brackets around it. -/
inductive IsSegment : List Token → TypeSegment → Prop
  | plain {pairs : Nat} {inner part : List Token} (wraps : Wraps pairs inner part) (paired : Paired inner)
      (single : ¬ HasOuterArrow inner) (bare : ∀ within, ¬ BracketsAround within inner) : IsSegment part (.plain inner)
  | function {pairs : Nat} {inner part : List Token} (wraps : Wraps (pairs + 1) inner part) (paired : Paired inner)
      (several : HasOuterArrow inner) : IsSegment part (.function inner)

variable {segment : TypeSegment}

theorem classify_bare (bare : ∀ inner, ¬ BracketsAround inner tokens) : classify tokens = .plain tokens := by
  rw [classify, withoutBrackets_eq_none_iff.mpr bare]

/-- Without its brackets a part is told to be the same, unless there is an outer arrow within them. -/
theorem classify_around (around : BracketsAround inner tokens) [Decidable (HasOuterArrow inner)] :
    classify tokens = if HasOuterArrow inner then .function inner else classify inner := by
  obtain ⟨-, -, -, -, -, paired⟩ := id around
  rw [classify, withoutBrackets_eq_some_iff.mpr around]
  simp only [gt_iff_lt, one_lt_length_split_iff paired]

/-- One more pair of brackets. -/
theorem IsSegment.around (around : BracketsAround inner tokens) (own : IsSegment inner segment) : IsSegment tokens segment := by
  cases own with
  | plain wraps paired single bare => exact .plain (.pair around wraps) paired single bare
  | function wraps paired several => exact .function (.pair around wraps) paired several

/-- Around tokens without an outer arrow there is none. -/
theorem Wraps.single {pairs : Nat} (wraps : Wraps pairs inner tokens) (single : ¬ HasOuterArrow inner) :
    ¬ HasOuterArrow tokens := by
  cases wraps with
  | none => exact single
  | pair around _ => exact around.single

theorem classify_plain {pairs : Nat} (wraps : Wraps pairs inner tokens) (single : ¬ HasOuterArrow inner)
    (bare : ∀ within, ¬ BracketsAround within inner) : classify tokens = .plain inner := by
  classical
  induction wraps with
  | none => exact classify_bare bare
  | pair around more step => rw [classify_around around, if_neg (more.single single), step single bare]

theorem classify_function {pairs : Nat} (wraps : Wraps (pairs + 1) inner tokens) (several : HasOuterArrow inner) :
    classify tokens = .function inner := by
  classical
  cases wraps with
  | pair around more =>
    induction more generalizing tokens with
    | none => rw [classify_around around, if_pos several]
    | pair nearer _ step => rw [classify_around around, if_neg nearer.single, step several nearer]

/-- **A part has one segment, and it is told to be that.** -/
theorem classify_iff (paired : Paired part) (single : ¬ HasOuterArrow part) : classify part = segment ↔ IsSegment part segment := by
  classical
  constructor
  · rintro rfl
    fun_induction classify part with
    | case1 part none => exact .plain .none paired single (withoutBrackets_eq_none_iff.mp none)
    | case2 part inner found several =>
      have around := withoutBrackets_eq_some_iff.mp found
      obtain ⟨-, -, -, -, -, inside⟩ := id around
      exact .function (.pair around .none) inside ((one_lt_length_split_iff inside).mp several)
    | case3 part inner found one step =>
      have around := withoutBrackets_eq_some_iff.mp found
      obtain ⟨-, -, -, -, -, inside⟩ := id around
      exact .around around (step inside fun has => one ((one_lt_length_split_iff inside).mpr has))
  · intro own
    cases own with
    | plain wraps _ without bare => exact classify_plain wraps without bare
    | function wraps _ several => exact classify_function wraps several

theorem map_classify_iff {segments : List TypeSegment} (each : ∀ part ∈ parts, Paired part ∧ ¬ HasOuterArrow part) :
    parts.map classify = segments ↔ List.Forall₂ IsSegment parts segments := by
  induction parts generalizing segments with
  | nil => cases segments <;> simp
  | cons part more step =>
    rw [List.forall_mem_cons] at each
    cases segments with
    | nil => simp
    | cons segment others =>
      rw [List.map_cons, List.cons.injEq, List.forall₂_cons, classify_iff each.1.1 each.1.2, step each.2]

/-! ## Annotations -/

theorem arrowParts_iff : ArrowParts tokens parts ↔ Paired tokens ∧ split tokens = parts := by
  constructor
  · exact fun areParts => ⟨areParts.paired, areParts.split_eq⟩
  · rintro ⟨paired, rfl⟩
    exact paired.arrowParts

/-- The tests of an annotation, one after the other. -/
theorem ofTokens_eq (tokens : List Token) [Decidable (Paired (Token.significant tokens))] :
    ofTokens tokens =
      if Token.significant tokens = [] then .error .empty
      else if ¬ Paired (Token.significant tokens) then .error (.unbalanced (Token.text tokens))
      else if [] ∈ split (Token.significant tokens) then .error (.missingSegment (Text.trim (Token.text tokens)))
      else .ok ((split (Token.significant tokens)).map classify) := by
  have anyEmpty : (split (Token.significant tokens)).any List.isEmpty = true ↔ [] ∈ split (Token.significant tokens) := by
    simp [List.any_eq_true]
  simp only [ofTokens, List.isEmpty_iff, Bool.not_eq_true', ← Bool.not_eq_true, balanced_iff, anyEmpty]

/-- **Which annotations are refused, and what the others consist of.** The scans never miss a token. Without a token that counts
an annotation is empty. Else it is refused if its brackets are not paired; and else if there is nothing on one side of an outer
arrow. Any other annotation is its parts with the outer arrows between them, and it has one segment for each part. -/
theorem ofTokens_exact (tokens : List Token) :
    Indexed.typeSegments tokens = .ok (ofTokens tokens) ∧
    (ofTokens tokens = .error .empty ↔ Token.significant tokens = []) ∧
    (∀ text, ofTokens tokens = .error (.unbalanced text) ↔
      Token.significant tokens ≠ [] ∧ ¬ Paired (Token.significant tokens) ∧ text = Token.text tokens) ∧
    (∀ text, ofTokens tokens = .error (.missingSegment text) ↔
      Token.significant tokens ≠ [] ∧ (∃ parts, ArrowParts (Token.significant tokens) parts ∧ [] ∈ parts) ∧
        text = Text.trim (Token.text tokens)) ∧
    ∀ segments, ofTokens tokens = .ok segments ↔
      ∃ parts, ArrowParts (Token.significant tokens) parts ∧ (∀ part ∈ parts, part ≠ []) ∧
        List.Forall₂ IsSegment parts segments := by
  classical
  refine ⟨Indexed.typeSegments_ok tokens, ?_⟩
  rw [ofTokens_eq]
  by_cases none : Token.significant tokens = []
  · rw [if_pos none, none]
    refine ⟨by simp, by simp, by simp, fun segments => ⟨by simp, ?_⟩⟩
    rintro ⟨parts, areParts, filled, -⟩
    -- the only part of no tokens is empty
    rw [← areParts.split_eq] at filled
    exact absurd rfl (filled [] List.mem_cons_self)
  · by_cases paired : Paired (Token.significant tokens)
    · rw [if_neg none, if_neg (not_not_intro paired)]
      have only (parts) : ArrowParts (Token.significant tokens) parts ↔ split (Token.significant tokens) = parts := by
        rw [arrowParts_iff, and_iff_right paired]
      simp only [only, exists_eq_left']
      by_cases missing : [] ∈ split (Token.significant tokens)
      · rw [if_pos missing]
        refine ⟨by simp [none], by simp [paired], by simp [none, missing, eq_comm], fun segments => ⟨by simp, ?_⟩⟩
        rintro ⟨filled, -⟩
        exact absurd rfl (filled [] missing)
      · rw [if_neg missing]
        have filled : ∀ part ∈ split (Token.significant tokens), part ≠ [] :=
          fun part member empty => missing (empty ▸ member)
        refine ⟨by simp [none], by simp [paired], by simp [missing], fun segments => ?_⟩
        rw [Except.ok.injEq, map_classify_iff paired.arrowParts.each_paired, and_iff_right filled]
    · rw [if_neg none, if_pos paired]
      have noParts (parts) : ¬ ArrowParts (Token.significant tokens) parts := fun areParts => paired areParts.paired
      refine ⟨by simp [none], by simp [none, paired, eq_comm], by simp [noParts], by simp [noParts]⟩

end DerwLang.TypeSegment
