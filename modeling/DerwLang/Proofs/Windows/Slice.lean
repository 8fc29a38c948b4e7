/-
**A window is as good as a slice.**

A cursor between two indices reads expressions, bodies, patterns and the definitions of a `let` as a cursor over a copy of
just the tokens between them does: both end where they stop, with the same syntax, or refuse the text for the same cause
(`window_as_slice`). The tokens in front and behind decide no more than which line is blamed.
-/

import DerwLang.Indexed.Ending
import DerwLang.Proofs.Windows.Declaration

namespace DerwLang.Indexed

/-! ## Endings -/

section Endings

variable (readers : Readers) (body : Cursor → Guarded Body) (depth : Nat) (cursor : Cursor)

theorem fst_expressionEnding : Prod.fst <$> expressionEnding readers cursor = expressionStep readers cursor := by
  simp [expressionEnding, expressionStep]

theorem fst_bodyEnding : Prod.fst <$> bodyEnding readers cursor = bodyStep readers cursor := by
  rw [bodyEnding]
  split
  · simp
  · rw [bodyStep, if_neg ‹_›, ← fst_expressionEnding]
    simp

/-- The pattern is the one that is read without its ending. -/
theorem fst_patternEnding : Prod.fst <$> patternEnding cursor = pattern cursor := by
  rw [patternEnding, pattern, map_bind]
  congr 1
  funext found?
  cases found? with
  | none => simp [singlePattern]
  | some index => simp

/-- The definitions are those that are read without their ending. -/
theorem fst_localsEnding : Prod.fst <$> localsEnding body cursor = localDefinitions body cursor := by
  simp [localsEnding]

/-- The expression is the one that is read without its ending. -/
theorem fst_expressionEndingAt : Prod.fst <$> expressionEndingAt depth cursor = expressionAt depth cursor := by
  cases depth with
  | zero => rfl
  | succ depth => exact fst_expressionEnding _ cursor

/-- The body is the one that is read without its ending. -/
theorem fst_bodyEndingAt : Prod.fst <$> bodyEndingAt depth cursor = bodyAt depth cursor := by
  cases depth with
  | zero => rfl
  | succ depth => exact fst_bodyEnding _ cursor

end Endings

/-- The same value, both readings having gone on to where their cursors stop. -/
def Finished {α : Type} (first second : Cursor) (one other : α × Cursor) : Prop :=
  one.1 = other.1 ∧ one.2 = first.moved first.stop ∧ other.2 = second.moved second.stop

section Steps

variable {bound : Nat} {readers readers' : Readers} {read read' : Cursor → Guarded Body} {done after : List Token}
  {cursor : Cursor}

theorem alike_expressionEnding (like : readers.Like bound readers') (within : cursor.Within) (light : cursor.load ≤ bound) :
    Alike (Finished (cursor.placed done after) cursor) (expressionEnding readers (cursor.placed done after))
      (expressionEnding readers' cursor) := by
  rw [expressionEnding, expressionEnding]
  refine (alike_chain like within light).bind ?_
  rintro _ _ ⟨whole, index, -, high, rfl, rfl⟩
  refine (alike_expectEnd (within.moved high) .expression).bind ?_
  rintro _ _ (rfl : index = cursor.stop)
  exact .ok ⟨rfl, rfl, rfl⟩

theorem alike_expressionStep (like : readers.Like bound readers') (within : cursor.Within) (light : cursor.load ≤ bound) :
    Alike Eq (expressionStep readers (cursor.placed done after)) (expressionStep readers' cursor) := by
  rw [← fst_expressionEnding, ← fst_expressionEnding]
  exact (alike_expressionEnding like within light).map fun _ _ same => same.1

theorem alike_bodyStep (like : readers.Like bound readers') (within : cursor.Within) (light : cursor.load ≤ bound) :
    Alike Eq (bodyStep readers (cursor.placed done after)) (bodyStep readers' cursor) := by
  rw [bodyStep, bodyStep, Cursor.nextKind_placed within]
  refine .ite (fun isLet => ?_) fun _ => ?_
  · obtain ⟨token, found, -⟩ := Option.map_eq_some_iff.mp (eq_of_beq isLet)
    have inside := within.next found
    have lighter {index stop : Nat} (low : cursor.index < index) (high : stop ≤ cursor.stop) :
        (cursor.between index stop).load < bound :=
      (Cursor.load_between_lt found low high).trans_le light
    refine (findKeyword_placed within _ _ _ inside.ordered).bind (.refused _ _ _) fun middle low high => ?_
    refine (alike_localDefinitions like.body (within.between low high.le) (lighter (Nat.lt_succ_self _) high.le).le).bind ?_
    rintro locals _ rfl
    refine (like.expression (within.between high (Nat.le_refl _))
      (lighter (Nat.lt_succ_of_le (Nat.le_of_succ_le low)) (Nat.le_refl _))).bind ?_
    rintro result _ rfl
    exact .value _
  · refine (alike_expressionStep like within light).bind ?_
    rintro result _ rfl
    exact .value _

theorem alike_bodyEnding (like : readers.Like bound readers') (within : cursor.Within) (light : cursor.load ≤ bound) :
    Alike (Finished (cursor.placed done after) cursor) (bodyEnding readers (cursor.placed done after))
      (bodyEnding readers' cursor) := by
  rw [bodyEnding, bodyEnding, Cursor.nextKind_placed within]
  refine .ite (fun _ => ?_) fun _ => ?_
  · refine (alike_bodyStep like within light).bind ?_
    rintro body _ rfl
    exact .ok ⟨rfl, rfl, rfl⟩
  · refine (alike_expressionEnding like within light).bind ?_
    rintro ⟨result, _⟩ ⟨_, _⟩ ⟨rfl, rfl, rfl⟩
    exact .ok ⟨rfl, rfl, rfl⟩

theorem alike_patternEnding (within : cursor.Within) :
    Alike (Finished (cursor.placed done after) cursor) (patternEnding (cursor.placed done after)) (patternEnding cursor) := by
  rw [patternEnding, patternEnding]
  refine (findKind_placed within _).bind ?_ fun index _ _ => ?_
  · refine (alike_patternHead within).bind ?_
    rintro _ _ ⟨pattern, index, -, high, rfl, rfl⟩
    refine (alike_expectEnd (within.moved high) .pattern).bind ?_
    rintro _ _ (rfl : index = cursor.stop)
    exact .ok ⟨rfl, rfl, rfl⟩
  · refine (parts_placed done after _ within.ordered within.inside).bind fun ranges each => ?_
    refine (alike_listParts within each).bind ?_
    rintro parts _ rfl
    exact .ok ⟨rfl, rfl, rfl⟩

theorem alike_localsEnding (like : BodiesLike bound read read') (within : cursor.Within) (light : cursor.load ≤ bound) :
    Alike (Finished (cursor.placed done after) cursor) (localsEnding read (cursor.placed done after))
      (localsEnding read' cursor) := by
  rw [localsEnding, localsEnding]
  refine (alike_localDefinitions like within light).bind ?_
  rintro locals _ rfl
  exact .ok ⟨rfl, rfl, rfl⟩

end Steps

/-! ## The knot -/

/-- **Any two depths above the weight of the tokens ahead are alike.** -/
theorem readers_like {bound depth depth' : Nat} (deep : bound ≤ depth) (deep' : bound ≤ depth') :
    Readers.Like bound ⟨expressionAt depth, bodyAt depth⟩ ⟨expressionAt depth', bodyAt depth'⟩ := by
  -- By induction on what may lie ahead, not on a depth: the two depths fall together with it.
  induction bound generalizing depth depth' with
  | zero => exact ⟨fun _ light => absurd light (Nat.not_lt_zero _), fun _ light => absurd light (Nat.not_lt_zero _)⟩
  | succ bound step =>
    obtain ⟨depth, rfl⟩ : ∃ above, depth = above + 1 := ⟨depth - 1, by omega⟩
    obtain ⟨depth', rfl⟩ : ∃ above, depth' = above + 1 := ⟨depth' - 1, by omega⟩
    have inner := step (Nat.le_of_succ_le_succ deep) (Nat.le_of_succ_le_succ deep')
    exact ⟨fun within light => alike_expressionStep inner within (Nat.le_of_lt_succ light),
      fun within light => alike_bodyStep inner within (Nat.le_of_lt_succ light)⟩

/-! ## Windows -/

/-- From both cursors the same is read up to where they stop, whatever is read; errors may differ in their lines. -/
structure ReadAlike (depth depth' : Nat) (first second : Cursor) : Prop where
  expression : Alike (Finished first second) (expressionEndingAt depth first) (expressionEndingAt depth' second)
  body : Alike (Finished first second) (bodyEndingAt depth first) (bodyEndingAt depth' second)
  pattern : Alike (Finished first second) (patternEnding first) (patternEnding second)
  locals : Alike (Finished first second) (localsEnding (bodyAt depth) first) (localsEnding (bodyAt depth') second)

/-- Whatever is read from the cursor, every access finds something. -/
structure ReadSound (depth : Nat) (cursor : Cursor) : Prop where
  expression : ∃ parsed, (expressionEndingAt depth cursor).run = .ok parsed
  body : ∃ parsed, (bodyEndingAt depth cursor).run = .ok parsed
  pattern : ∃ parsed, (patternEnding cursor).run = .ok parsed
  locals : ∃ parsed, (localsEnding (bodyAt depth) cursor).run = .ok parsed

section Windows

variable {depth depth' : Nat} {first second common : Cursor} {own : List Token}

theorem Finished.join {α : Type} {one two shared : α × Cursor} (left : Finished first common one shared)
    (right : Finished second common two shared) : Finished first second one two :=
  ⟨left.1.trans right.1.symm, left.2.1, right.2.1⟩

theorem ReadAlike.join {shared : Nat} (left : ReadAlike depth shared first common)
    (right : ReadAlike depth' shared second common) :
    ReadAlike depth depth' first second where
  expression := left.expression.join right.expression fun _ _ _ => .join
  body := left.body.join right.body fun _ _ _ => .join
  pattern := left.pattern.join right.pattern fun _ _ _ => .join
  locals := left.locals.join right.locals fun _ _ _ => .join

/-- Between further tokens the same is read as from the own ones. -/
theorem readAlike_around (done after : List Token) (deep : (Cursor.start own).depth ≤ depth)
    (deep' : (Cursor.start own).depth ≤ depth') :
    ReadAlike depth depth' (Cursor.around done own after) (Cursor.start own) := by
  obtain ⟨depth, rfl⟩ : ∃ above, depth = above + 1 := ⟨depth - 1, by rw [Cursor.depth] at deep; omega⟩
  obtain ⟨depth', rfl⟩ : ∃ above, depth' = above + 1 := ⟨depth' - 1, by rw [Cursor.depth] at deep'; omega⟩
  have within := Cursor.within_start own
  have light : (Cursor.start own).load ≤ Window.weight ⟨0, own⟩ := (Cursor.load_start own).le
  have like := readers_like (Nat.le_of_succ_le_succ deep) (Nat.le_of_succ_le_succ deep')
  have like' := readers_like (Nat.le_of_succ_le deep) (Nat.le_of_succ_le deep')
  exact ⟨alike_expressionEnding like within light, alike_bodyEnding like within light, alike_patternEnding within,
    alike_localsEnding like'.body within light⟩

theorem sound_of_fst {α β : Type} {reading : Guarded (α × β)} {bare : Guarded α} {parsed : Parsed α}
    (same : Prod.fst <$> reading = bare) (agrees : Agrees Eq bare parsed) : ∃ parsed, reading.run = .ok parsed := by
  have found := agrees.run_eq
  rw [← same, ExceptT.run_map] at found
  cases run : reading.run with
  | ok parsed => exact ⟨parsed, rfl⟩
  | error fault =>
    rw [run] at found
    cases found

/-- Where list literals stand between their brackets, no access is made in vain. -/
theorem readSound_around (done after : List Token) (enclosed : ∀ token ∈ own, token.Enclosed)
    (deep : (Cursor.start own).depth ≤ depth) : ReadSound depth (Cursor.around done own after) := by
  obtain ⟨depth, rfl⟩ : ∃ above, depth = above + 1 := ⟨depth - 1, by rw [Cursor.depth] at deep; omega⟩
  have views : (Cursor.around done own after).Views ⟨lineBefore done (own ++ after), own⟩ := ⟨done, after, rfl, rfl, enclosed⟩
  have deep : Window.weight ⟨lineBefore done (own ++ after), own⟩ ≤ depth := Nat.le_of_succ_le_succ deep
  have agree := readers_agree deep deep
  exact ⟨sound_of_fst (fst_expressionEndingAt _ _) (agree.expression views (Nat.le_refl _)),
    sound_of_fst (fst_bodyEndingAt _ _) (agree.body views (Nat.le_refl _)),
    sound_of_fst (fst_patternEnding _) (agrees_pattern views),
    sound_of_fst (fst_localsEnding _ _) (agrees_localDefinitions agree.body views (Nat.le_refl _))⟩

/-- A cursor stands between the tokens in front of it and those behind the place where it stops. -/
theorem exists_around {window : Cursor} (within : window.Within) : ∃ done after, window = Cursor.around done window.ahead after := by
  obtain ⟨tokens, start, stop⟩ := window
  have ordered : start ≤ stop := within.ordered
  have inside : stop ≤ tokens.length := within.inside
  have whole : tokens.take start ++ ((tokens.take stop).drop start ++ tokens.drop stop) = tokens := by
    have front : tokens.take start = (tokens.take stop).take start := by rw [List.take_take, Nat.min_eq_left ordered]
    rw [← List.append_assoc, front, List.take_append_drop, List.take_append_drop]
  have front : (tokens.take start).length = start := by simp; omega
  have middle : ((tokens.take stop).drop start).length = stop - start := by simp; omega
  refine ⟨tokens.take start, tokens.drop stop, ?_⟩
  rw [Cursor.ahead, Cursor.around, whole, front, middle, Nat.add_sub_cancel' ordered]

/-- **A window is as good as a slice.** What is read between two indices is what is read of a slice of the tokens between
them, and it ends where the window does; other tokens around change no more than the line of an error. Where list literals
stand between their brackets, neither makes an access in vain. -/
theorem window_as_slice {window : Cursor} (within : window.Within) (deep : (Cursor.start window.ahead).depth ≤ depth)
    (deep' : (Cursor.start window.ahead).depth ≤ depth') :
    ReadAlike depth depth' window (Cursor.start window.ahead) ∧
      (∀ done after, ReadAlike depth depth' window (Cursor.around done window.ahead after)) ∧
      ((∀ token ∈ window.ahead, token.Enclosed) → ReadSound depth window ∧ ReadSound depth' (Cursor.start window.ahead)) := by
  obtain ⟨front, back, place⟩ := exists_around within
  generalize window.ahead = own at *
  subst place
  have alone : Cursor.start own = Cursor.around [] own [] := by simp [Cursor.start, Cursor.around]
  have alike := readAlike_around front back deep deep'
  refine ⟨alike, fun done after => alike.join (readAlike_around done after deep' deep'), fun enclosed => ⟨?_, ?_⟩⟩
  · exact readSound_around _ _ enclosed deep
  · rw [alone]
    exact readSound_around [] [] enclosed deep'

/-- `( case a of` with a branch on a line of its own, between the bracket in front and the one that closes. -/
def bracketedCase : Cursor :=
  ⟨[⟨.openBracket, "(", 1, 0⟩, ⟨.keyword .caseWord, "case", 1, 2⟩, ⟨.identifier, "a", 1, 7⟩, ⟨.keyword .ofWord, "of", 1, 9⟩,
    ⟨.keyword .defaultWord, "default", 2, 2⟩, ⟨.arrow, "->", 2, 10⟩, ⟨.literal, "[2]", 2, 13⟩, ⟨.closeBracket, ")", 2, 17⟩], 1, 7⟩

theorem window_as_slice_bracketed :
    ReadAlike bracketedCase.depth (Cursor.start bracketedCase.ahead).depth bracketedCase (Cursor.start bracketedCase.ahead) ∧
      ReadSound bracketedCase.depth bracketedCase ∧
      (expressionEndingAt bracketedCase.depth bracketedCase).run =
        .ok (.ok (.caseOf (.value "a") [⟨.otherwise, ⟨[], .list [.value "2"]⟩⟩], bracketedCase.moved 7)) := by
  have within : bracketedCase.Within := ⟨by decide, by decide⟩
  have deep : (Cursor.start bracketedCase.ahead).depth ≤ bracketedCase.depth := by decide
  have enclosed : ∀ token ∈ bracketedCase.ahead, token.Enclosed := by
    unfold Token.Enclosed
    decide
  have whole := window_as_slice within deep (Nat.le_refl _)
  exact ⟨whole.1, (whole.2.2 enclosed).1, rfl⟩

end Windows

end DerwLang.Indexed
