/-
**Patterns among further tokens.**

A cursor among further tokens reads patterns like the one over its own tokens. An access to the interior of a literal depends
on the literal alone; it fails where the text has no end of its own, and then it fails for both.
-/

import DerwLang.Proofs.Windows.Alike

namespace DerwLang.Indexed

open Grammar (isListLiteral unquote)

/-! ## Interiors -/

theorem charsUpTo_cases (text : List Char) (count : Nat) :
    (∃ inside, Checked.charsUpTo text count = .ok inside ∧ inside.length ≤ text.length) ∨
      ∃ fault, Checked.charsUpTo text count = .error fault ∧ fault ≠ .endless := by
  fun_induction Checked.charsUpTo text count with
  | case1 text => exact .inl ⟨[], rfl, Nat.zero_le _⟩
  | case2 count => exact .inr ⟨.slice, rfl, by decide⟩
  | case3 c rest count fits step =>
    rcases step with ⟨inside, found, short⟩ | ⟨fault, found, ends⟩
    · exact .inl ⟨c :: inside, by rw [found]; rfl, Nat.succ_le_succ short⟩
    · exact .inr ⟨fault, by rw [found]; rfl, ends⟩
  | case4 c rest count cuts => exact .inr ⟨.character, rfl, by decide⟩

theorem isListLiteral_opened {token : Token} (isList : isListLiteral token = true) : ∃ rest, token.body.toList = '[' :: rest := by
  rw [isListLiteral, Bool.and_eq_true, Text.startsWith] at isList
  obtain ⟨rest, opened⟩ := List.isPrefixOf_iff_prefix.mp isList.2
  exact ⟨rest, opened.symm⟩

/-- The access to the interior of a list literal comes to something shorter, or it fails at once. -/
theorem chars_interior {token : Token} (isList : isListLiteral token = true) :
    ∃ stop, Checked.minus (Checked.bytes token.body.toList) 1 = .ok stop ∧
      ((∃ inside, Checked.chars token.body.toList 1 stop = .ok inside ∧ inside.length < token.body.length) ∨
        ∃ fault, Checked.chars token.body.toList 1 stop = .error fault ∧ fault ≠ .endless) := by
  obtain ⟨rest, opened⟩ := isListLiteral_opened isList
  have size : Checked.bytes token.body.toList = Checked.bytes rest + 1 := by
    rw [opened, Checked.bytes_cons, Nat.add_comm]
    rfl
  refine ⟨Checked.bytes rest, by rw [size, Checked.minus_one], ?_⟩
  have length : token.body.length = rest.length + 1 := by rw [← String.length_toList, opened, List.length_cons]
  rw [opened, length, Checked.chars]
  split
  · have behind : Checked.charsFrom ('[' :: rest) 1 = .ok rest := by
      rw [Checked.charsFrom, if_pos (by decide)]
      exact Checked.charsFrom.eq_1 rest
    rw [behind, Checked.ok_bind]
    rcases charsUpTo_cases rest (Checked.bytes rest - 1) with ⟨inside, found, short⟩ | ⟨fault, found, ends⟩
    · exact .inl ⟨inside, found, Nat.lt_succ_of_le short⟩
    · exact .inr ⟨fault, found, ends⟩
  · exact .inr ⟨.slice, rfl, by decide⟩

theorem isEmptyList_ends (token : Token) : isEmptyList token ≠ .error .endless := by
  rw [isEmptyList]
  split
  · obtain ⟨stop, minus, ⟨inside, found, -⟩ | ⟨fault, found, ends⟩⟩ := chars_interior ‹_›
    · rw [minus, Checked.ok_bind, found]
      simp
    · rw [minus, Checked.ok_bind, found]
      exact fun same => ends (Except.error.inj same)
  · simp

/-! ## Patterns -/

section Patterns

variable {done after : List Token} {cursor : Cursor} {token : Token}

theorem alike_patternFields (tag : String) {round : Nat} (within : cursor.Within) (long : cursor.stop - cursor.index < round) :
    Alike (Onward done after cursor) (patternFields tag round (cursor.placed done after)) (patternFields tag round cursor) := by
  induction round generalizing cursor with
  | zero => simp at long
  | succ round step =>
    rw [patternFields, patternFields, Cursor.peek_placed within]
    cases found : cursor.peek with
    | none => exact .refused _ _ _
    | some token =>
      have inside := within.next found
      have further {index : Nat} (low : cursor.next.index ≤ index) (high : index ≤ cursor.stop) :
          Alike (Onward done after cursor) (patternFields tag round ((cursor.moved index).placed done after))
            (patternFields tag round (cursor.moved index)) :=
        (step (within.moved high) (Cursor.rounds_moved found low long)).before (Nat.le_of_succ_le low)
      dsimp only
      cases token.kind with
      | closeCurly => exact .step inside []
      | identifier =>
        dsimp only
        rw [Cursor.next_placed, Cursor.nextKind_placed inside]
        refine .ite (fun _ => ?_) fun _ => ?_
        · refine (further (Nat.le_refl _) inside.ordered).bind ?_
          rintro _ _ ⟨fields, index, low, high, rfl, rfl⟩
          exact .onward _ low high
        · refine (alike_expect inside .comma .betweenFields).bind ?_
          rintro _ _ ⟨comma, index, low, high, rfl, rfl⟩
          refine (further low high).bind ?_
          rintro _ _ ⟨fields, index', low', high', rfl, rfl⟩
          exact .onward _ low' high'
      | _ => exact .refused _ _ _

theorem alike_tagPattern (tag : String) (within : cursor.Within) :
    Alike (Onward done after cursor) (tagPattern tag (cursor.placed done after)) (tagPattern tag cursor) := by
  rw [tagPattern, tagPattern, Cursor.nextKind_placed within]
  refine .ite (fun opens => ?_) fun _ => .stay within _
  obtain ⟨token, found, -⟩ := Option.map_eq_some_iff.mp (eq_of_beq opens)
  rw [Cursor.next_placed, Cursor.rounds_placed]
  refine (alike_patternFields tag (within.next found) (Nat.lt_succ_self _)).bind ?_
  rintro _ _ ⟨fields, index, low, high, rfl, rfl⟩
  exact .onward _ (Nat.le_of_succ_le low) high

theorem alike_patternHead (within : cursor.Within) :
    Alike (Onward done after cursor) (patternHead (cursor.placed done after)) (patternHead cursor) := by
  rw [patternHead, patternHead, Cursor.peek_placed within]
  cases found : cursor.peek with
  | none => exact .refused _ _ _
  | some token =>
    have inside := within.next found
    dsimp only
    cases token.kind with
    | string | formatString => exact .step inside _
    | literal =>
      refine (Alike.access (isEmptyList_ends token)).bind ?_
      rintro isEmpty _ rfl
      exact .ite (fun _ => .step inside _) fun _ => .refused _ _ _
    | keyword word =>
      cases word with
      | defaultWord => exact .step inside _
      | _ => exact .refused _ _ _
    | identifier =>
      refine .ite (fun _ => ?_) fun _ => .refused _ _ _
      refine (alike_tagPattern token.body inside).bind ?_
      rintro _ _ ⟨pattern, index, low, high, rfl, rfl⟩
      exact .onward _ (Nat.le_of_succ_le low) high
    | _ => exact .refused _ _ _

theorem alike_singlePattern (within : cursor.Within) :
    Alike Eq (singlePattern (cursor.placed done after)) (singlePattern cursor) := by
  rw [singlePattern, singlePattern]
  refine (alike_patternHead within).bind ?_
  rintro _ _ ⟨pattern, index, low, high, rfl, rfl⟩
  refine (alike_expectEnd (within.moved high) .pattern).bind ?_
  intro _ _ _
  exact .value _

theorem alike_listPart (within : cursor.Within) :
    Alike (Onward done after cursor) (listPart (cursor.placed done after)) (listPart cursor) := by
  rw [listPart, listPart, Cursor.peek_placed within]
  cases found : cursor.peek with
  | none => exact .refused _ _ _
  | some token =>
    have inside := within.next found
    refine Alike.bind_by (Onward done after cursor) ?_ ?_
    · cases token.kind with
      | string | formatString => exact .step inside _
      | literal =>
        refine (Alike.access (isEmptyList_ends token)).bind ?_
        rintro isEmpty _ rfl
        exact .ite (fun _ => .step inside _) fun _ => .refused _ _ _
      | identifier =>
        refine .ite (fun _ => ?_) fun _ => .ite (fun _ => .refused _ _ _) fun _ => .step inside _
        refine (alike_tagPattern token.body inside).bind ?_
        rintro _ _ ⟨pattern, index, low, high, rfl, rfl⟩
        exact .onward _ (Nat.le_of_succ_le low) high
      | _ => exact .refused _ _ _
    · rintro _ _ ⟨part, index, low, high, rfl, rfl⟩
      refine (alike_expectEnd (within.moved high) .listPart).bind ?_
      intro _ _ _
      exact .onward _ low high

theorem alike_listParts {ranges : List (Nat × Nat)} (within : cursor.Within)
    (each : ∀ range ∈ ranges, Between cursor.index cursor.stop range) :
    Alike Eq (listParts (cursor.placed done after) (ranges.map (placedRange done))) (listParts cursor ranges) := by
  induction ranges with
  | nil => exact .value _
  | cons range more step =>
    rw [List.forall_mem_cons] at each
    rw [List.map_cons, listParts, listParts]
    refine (alike_listPart (within.between each.1.2.1 each.1.2.2)).bind ?_
    rintro _ _ ⟨part, index, low, high, rfl, rfl⟩
    dsimp only
    rw [List.isEmpty_map]
    refine .ite (fun _ => .refused _ _ _) fun _ => ?_
    refine (step each.2).bind ?_
    rintro others _ rfl
    exact .value _

/-- **A pattern is read like the one without the further tokens.** -/
theorem alike_pattern (within : cursor.Within) : Alike Eq (pattern (cursor.placed done after)) (pattern cursor) := by
  rw [pattern, pattern]
  refine (findKind_placed within _).bind (alike_singlePattern within) fun index _ _ => ?_
  refine (parts_placed done after _ within.ordered within.inside).bind fun ranges each => ?_
  refine (alike_listParts within each).map ?_
  rintro parts _ rfl
  rfl

end Patterns

end DerwLang.Indexed
