/-
**Segments are taken where they are.**

The brackets of an annotation are balanced before it is split, so are those of each of its parts, and so is what stands between
the brackets around one. That keeps the count of open brackets from falling below zero (`closesAtEnd_eq`) and the brackets that
are taken off in their place (`withoutBrackets_eq`); the slices are the parts that splitting finds (`splitArrows_eq`).
-/

import DerwLang.Indexed.TypeSegment
import DerwLang.Proofs.Indexed.Lexer

namespace DerwLang.Indexed

open TypeSegment (balanced balancedFrom beforeLastClose split splitFrom)

/-- A slice is found between whole parts. -/
theorem slice_append {α : Type} (before own after : List α) :
    Checked.slice (before ++ (own ++ after)) before.length (before.length + own.length) = .ok own := by
  rw [Checked.slice, if_pos ⟨Nat.le_add_right _ _, by simp⟩, List.take_append, List.drop_append_of_le_length (by simp)]
  simp

/-! ## Arrows -/

/-- The number of open brackets after a token. -/
def depthAfter (token : Token) (depth : Nat) : Nat :=
  match token.kind with
  | .openBracket => depth + 1
  | .closeBracket => depth - 1
  | _ => depth

theorem splitFrom_cons (token : Token) (rest : List Token) (depth : Nat) :
    splitFrom depth (token :: rest) =
      if token.kind == .arrow && depth == 0 then [] :: splitFrom 0 rest
      else
        match splitFrom (depthAfter token depth) rest with
        | [] => [[token]]
        | part :: more => (token :: part) :: more := rfl

theorem arrowParts_cons (tokens rest : List Token) (token : Token) (depth index start : Nat) :
    arrowParts tokens (token :: rest) depth index start =
      if token.kind == .arrow && depth == 0 then do
        let part ← Checked.slice tokens start index
        let others ← arrowParts tokens rest 0 (index + 1) (index + 1)
        return part :: others
      else arrowParts tokens rest (depthAfter token depth) (index + 1) start := by
  rw [arrowParts, depthAfter]
  split <;> simp_all

/-- The part at hand, `own`, goes on with the first of the parts that are left. -/
theorem arrowParts_eq (before own rest : List Token) (depth : Nat) :
    ∃ part more, splitFrom depth rest = part :: more ∧
      arrowParts (before ++ (own ++ rest)) rest depth (before.length + own.length) before.length = .ok ((own ++ part) :: more) := by
  induction rest generalizing before own depth with
  | nil =>
    refine ⟨[], [], rfl, ?_⟩
    have whole : (before ++ (own ++ [])).length = before.length + own.length := by simp
    rw [arrowParts, whole, slice_append]
    simp
  | cons token rest step =>
    rw [arrowParts_cons, splitFrom_cons]
    split
    · obtain ⟨part, more, parts, read⟩ := step (before ++ (own ++ [token])) [] 0
      have place : (before ++ (own ++ [token])).length = before.length + own.length + 1 := by simp [Nat.add_assoc]
      have same : before ++ (own ++ [token]) ++ ([] ++ rest) = before ++ (own ++ token :: rest) := by simp
      rw [same, place, List.length_nil] at read
      refine ⟨[], part :: more, by rw [parts], ?_⟩
      rw [slice_append, Checked.ok_bind, read, List.append_nil]
      rfl
    · obtain ⟨part, more, parts, read⟩ := step before (own ++ [token]) (depthAfter token depth)
      have place : before.length + (own ++ [token]).length = before.length + own.length + 1 := by simp [Nat.add_assoc]
      rw [place, List.append_assoc, List.append_assoc] at read
      exact ⟨token :: part, more, by rw [parts], read⟩

/-- **Splitting at the arrows takes slices that are there.** -/
theorem splitArrows_eq (tokens : List Token) : splitArrows tokens = .ok (split tokens) := by
  obtain ⟨part, more, parts, read⟩ := arrowParts_eq [] [] tokens 0
  rw [split, parts]
  exact read

/-! ## Balanced brackets -/

/-- The parts of balanced tokens are balanced. -/
theorem balanced_splitFrom {depth : Nat} {tokens : List Token} (balanced : balancedFrom depth tokens = true) :
    ∃ part more, splitFrom depth tokens = part :: more ∧
      balancedFrom depth part = true ∧ ∀ other ∈ more, balancedFrom 0 other = true := by
  fun_induction balancedFrom depth tokens with
  | case1 depth => exact ⟨[], [], rfl, balanced, by simp⟩
  | case2 token rest depth opens step =>
    obtain ⟨part, more, parts, first, others⟩ := step balanced
    exact ⟨token :: part, more, by simp [splitFrom, opens, parts], by simpa [balancedFrom, opens] using first, others⟩
  | case3 => cases balanced
  | case4 token rest depth closes step =>
    obtain ⟨part, more, parts, first, others⟩ := step balanced
    exact ⟨token :: part, more, by simp [splitFrom, closes, parts], by simpa [balancedFrom, closes] using first, others⟩
  | case5 token rest depth noOpening noClosing noClosing' step =>
    obtain ⟨part, more, parts, first, others⟩ := step balanced
    have noBracket : token.kind ≠ .closeBracket := by cases depth <;> simp_all
    by_cases arrow : (token.kind == .arrow && depth == 0) = true
    · have outside : depth = 0 := by simp_all
      subst outside
      exact ⟨[], part :: more, by rw [splitFrom, if_pos arrow, parts], rfl, List.forall_mem_cons.mpr ⟨first, others⟩⟩
    · refine ⟨token :: part, more, ?_, by simpa [balancedFrom, noOpening, noBracket] using first, others⟩
      rw [splitFrom_cons, if_neg arrow, depthAfter]
      simp [parts]

theorem balanced_split {tokens : List Token} (whole : balanced tokens = true) : ∀ part ∈ split tokens, balanced part = true := by
  obtain ⟨part, more, parts, first, others⟩ := balanced_splitFrom whole
  rw [split, parts, List.forall_mem_cons]
  exact ⟨first, others⟩

/-- What stands before the last bracket is balanced, and that bracket is the last token. -/
theorem beforeLastClose_append {depth : Nat} {tokens inner : List Token} (found : beforeLastClose depth tokens = some inner) :
    balancedFrom depth inner = true ∧ ∃ last : Token, last.kind = .closeBracket ∧ tokens = inner ++ [last] := by
  fun_induction beforeLastClose depth tokens generalizing inner with
  | case1 | case3 | case4 => cases found
  | case2 token closes =>
    cases found
    exact ⟨rfl, token, by simpa using closes, rfl⟩
  | case5 token rest depth closes more step =>
    obtain ⟨inside, split_, rfl⟩ := Option.map_eq_some_iff.mp found
    obtain ⟨balanced, last, isLast, rfl⟩ := step split_
    exact ⟨by simpa [balancedFrom, closes] using balanced, last, isLast, rfl⟩
  | case6 token rest depth opens more step =>
    obtain ⟨inside, split_, rfl⟩ := Option.map_eq_some_iff.mp found
    obtain ⟨balanced, last, isLast, rfl⟩ := step split_
    exact ⟨by simpa [balancedFrom, opens] using balanced, last, isLast, rfl⟩
  | case7 token rest depth noClosing noClosing' noOpening more step =>
    obtain ⟨inside, split_, rfl⟩ := Option.map_eq_some_iff.mp found
    obtain ⟨balanced, last, isLast, rfl⟩ := step split_
    have noBracket : token.kind ≠ .closeBracket := by cases depth <;> simp_all
    exact ⟨by simpa [balancedFrom, noOpening, noBracket] using balanced, last, isLast, rfl⟩

/-- The count of open brackets does not fall below zero, and it tells whether the last bracket closes the first one. -/
theorem closesAtEnd_eq {length depth index : Nat} {rest : List Token} (balanced : balancedFrom (depth + 1) rest = true)
    (place : index + rest.length = length) :
    closesAtEnd length rest (depth + 1) index = .ok (beforeLastClose depth rest).isSome := by
  fun_induction beforeLastClose depth rest generalizing index with
  | case1 => simp [balancedFrom] at balanced
  | case2 token closes =>
    have isClosing : token.kind = .closeBracket := by simpa using closes
    have last : index = length - 1 := by simp_all; omega
    have some_ : 1 ≤ length := by simp_all; omega
    simp [closesAtEnd, isClosing, Checked.minus, some_, ← last]
  | case3 token other =>
    have noClosing : token.kind ≠ .closeBracket := by simpa using other
    by_cases opens : token.kind = .openBracket <;> simp [balancedFrom, opens, noClosing] at balanced
  | case4 token rest closes more =>
    have early : index ≠ length - 1 := by
      cases rest with
      | nil => exact absurd rfl (more rfl)
      | cons => simp at place; omega
    have some_ : 1 ≤ length := by rw [List.length_cons] at place; omega
    simp [closesAtEnd, closes, Checked.minus, some_, early]
  | case5 token rest depth closes more step =>
    have some_ : 1 ≤ length := by rw [List.length_cons] at place; omega
    have goesOn : closesAtEnd length rest (depth + 1) (index + 1) = .ok (beforeLastClose depth rest).isSome :=
      step (by simpa [balancedFrom, closes] using balanced) (by rw [List.length_cons] at place; omega)
    simp [closesAtEnd, closes, Checked.minus, some_, goesOn]
  | case6 token rest depth opens more step =>
    have goesOn : closesAtEnd length rest (depth + 1 + 1) (index + 1) = .ok (beforeLastClose (depth + 1) rest).isSome :=
      step (by simpa [balancedFrom, opens] using balanced) (by rw [List.length_cons] at place; omega)
    simp [closesAtEnd, opens, goesOn]
  | case7 token rest depth noClosing noClosing' noOpening more step =>
    have noBracket : token.kind ≠ .closeBracket := by cases depth <;> simp_all
    have goesOn : closesAtEnd length rest (depth + 1) (index + 1) = .ok (beforeLastClose depth rest).isSome :=
      step (by simpa [balancedFrom, noOpening, noBracket] using balanced) (by rw [List.length_cons] at place; omega)
    simp [closesAtEnd, goesOn]

/-! ## Brackets around a part -/

theorem balanced_withoutBrackets {tokens inner : List Token} (found : TypeSegment.withoutBrackets tokens = some inner) :
    balanced inner = true := by
  cases tokens with
  | nil => cases found
  | cons token rest =>
    rw [TypeSegment.withoutBrackets] at found
    split at found
    · exact (beforeLastClose_append found).1
    · cases found

/-- **The brackets around a balanced part are taken off where they are.** -/
theorem withoutBrackets_eq {tokens : List Token} (whole : balanced tokens = true) :
    withoutBrackets tokens = .ok (TypeSegment.withoutBrackets tokens) := by
  cases tokens with
  | nil => rfl
  | cons token rest =>
    rw [withoutBrackets, TypeSegment.withoutBrackets, List.head?_cons, List.getLast?_cons]
    by_cases opens : token.kind = .openBracket
    · have inside : balancedFrom 1 rest = true := by simpa [balanced, balancedFrom, opens] using whole
      have closes : closesAtEnd (token :: rest).length (token :: rest) 0 0 = .ok (beforeLastClose 0 rest).isSome := by
        rw [closesAtEnd, opens]
        exact closesAtEnd_eq inside (by simp [Nat.add_comm])
      simp only [closes, Checked.ok_bind]
      cases found : beforeLastClose 0 rest with
      | some inner =>
        obtain ⟨-, last, isLast, rfl⟩ := beforeLastClose_append found
        have slice : Checked.slice (token :: (inner ++ [last])) 1 (inner.length + 1) = .ok inner := by
          have own := slice_append [token] inner [last]
          rwa [List.length_singleton, Nat.add_comm] at own
        simp [opens, isLast, Checked.minus, slice]
      | none => simp [opens]
    · simp [opens]

/-! ## Segments -/

/-- A balanced part is told apart in as many rounds as it has tokens. -/
theorem classify_eq {round : Nat} {tokens : List Token} (whole : balanced tokens = true) (long : tokens.length < round) :
    classify round tokens = .ok (TypeSegment.classify tokens) := by
  induction round generalizing tokens with
  | zero => simp at long
  | succ round step =>
    rw [classify, withoutBrackets_eq whole, Checked.ok_bind, TypeSegment.classify]
    cases found : TypeSegment.withoutBrackets tokens with
    | none => rfl
    | some inner =>
      have shorter := TypeSegment.length_withoutBrackets found
      simp only [splitArrows_eq, Checked.ok_bind]
      split
      · rfl
      · exact step (balanced_withoutBrackets found) (by omega)

theorem classifyEach_eq (text : String) {parts : List (List Token)} (each : ∀ part ∈ parts, balanced part = true) :
    classifyEach text parts = .ok (
      if parts.any List.isEmpty then .error (.missingSegment (Text.trim text))
      else .ok (parts.map TypeSegment.classify)) := by
  induction parts with
  | nil => rfl
  | cons part more step =>
    rw [List.forall_mem_cons] at each
    rw [classifyEach, List.any_cons]
    cases part.isEmpty with
    | true => rfl
    | false =>
      simp only [classify_eq each.1 (Nat.lt_succ_self _), step each.2, Checked.ok_bind, Bool.false_or, Bool.false_eq_true, if_false]
      split
      · rfl
      · rfl

/-- **The segments of every annotation are found, and each access to its tokens is in range.** -/
theorem typeSegments_ok (tokens : List Token) : typeSegments tokens = .ok (TypeSegment.ofTokens tokens) := by
  rw [typeSegments, TypeSegment.ofTokens]
  split
  · rfl
  · split
    · rfl
    · rename_i balances
      have each : ∀ part ∈ split (Token.significant tokens), balanced part = true :=
        balanced_split (by simpa using balances)
      rw [splitArrows_eq, Checked.ok_bind, classifyEach_eq _ each]

end DerwLang.Indexed
