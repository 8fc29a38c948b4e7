/-
**Readings that come to the same but for a line.**

Two readings are alike (`Alike`) if they come to related values, or are refused for the same cause, or make the same access in
vain; where a text is refused is left open. Two cursors that have gone on as far as each other, one of them among further
tokens, are related by `Onward`. Loops that take one token a round at least end in both readings.
-/

import DerwLang.Proofs.Windows.Placed

namespace DerwLang.Indexed

/-! ## Results -/

/-- Two readings come to the same but for the line of an error, and no loop of theirs outlasts its input. -/
inductive Alike {α : Type} (related : α → α → Prop) : Guarded α → Guarded α → Prop
  | ok {value other : α} (same : related value other) : Alike related (.ofParsed (.ok value)) (.ofParsed (.ok other))
  | refused (cause : ParseError.Cause) (line line' : Nat) : Alike related (.refuse cause line) (.refuse cause line')
  | faulty {fault : Fault} (ends : fault ≠ .endless) : Alike related (.fault fault) (.fault fault)

namespace Alike

variable {α β : Type} {related : α → α → Prop} {further : β → β → Prop}

/-- The same value, from both. -/
theorem value (result : α) : Alike Eq (pure result) (pure result) :=
  .ok rfl

/-- Steps are alike when each of them is. -/
theorem bind {first second : Guarded α} {goOn goOn' : α → Guarded β} (one : Alike related first second)
    (two : ∀ value other, related value other → Alike further (goOn value) (goOn' other)) :
    Alike further (first >>= goOn) (second >>= goOn') := by
  cases one with
  | ok same => exact two _ _ same
  | refused cause line line' => exact .refused cause line line'
  | faulty ends => exact .faulty ends

/-- Steps are alike when each of them is, with what relates the first ones named. -/
theorem bind_by (related : α → α → Prop) {first second : Guarded α} {goOn goOn' : α → Guarded β}
    (one : Alike related first second)
    (two : ∀ value other, related value other → Alike further (goOn value) (goOn' other)) :
    Alike further (first >>= goOn) (second >>= goOn') :=
  one.bind two

theorem map {first second : Guarded α} {change : α → β} (one : Alike related first second)
    (two : ∀ value other, related value other → further (change value) (change other)) :
    Alike further (change <$> first) (change <$> second) := by
  cases one with
  | ok same => exact .ok (two _ _ same)
  | refused cause line line' => exact .refused cause line line'
  | faulty ends => exact .faulty ends

/-- What is related one way may be related another way. -/
theorem mono {other : α → α → Prop} {first second : Guarded α} (alike : Alike related first second)
    (weaker : ∀ one two, related one two → other one two) : Alike other first second := by
  cases alike with
  | ok same => exact .ok (weaker _ _ same)
  | refused cause line line' => exact .refused cause line line'
  | faulty ends => exact .faulty ends

/-- Two readings that are like a third one are alike. -/
theorem join {related' weaker : α → α → Prop} {first second common : Guarded α} (one : Alike related first common)
    (two : Alike related' second common)
    (both : ∀ value other shared, related value shared → related' other shared → weaker value other) :
    Alike weaker first second := by
  cases one with
  | ok same =>
    cases two with
    | ok same' => exact .ok (both _ _ _ same same')
  | refused cause line line' =>
    cases two with
    | refused => exact .refused _ _ _
  | faulty ends =>
    cases two with
    | faulty => exact .faulty ends

/-- A test that comes out the same in both. -/
theorem ite {test : Prop} [Decidable test] {first first' second second' : Guarded α} (yes : test → Alike related first second)
    (no : ¬ test → Alike related first' second') :
    Alike related (if test then first else first') (if test then second else second') := by
  split
  · exact yes ‹test›
  · exact no ‹¬ test›

/-- Readings of many parts are alike when those of each part are. -/
theorem mapM {place : β → β} {ranges : List β} {read read' : β → Guarded α}
    (each : ∀ range ∈ ranges, Alike Eq (read (place range)) (read' range)) :
    Alike Eq ((ranges.map place).mapM read) (ranges.mapM read') := by
  induction ranges with
  | nil => exact .value []
  | cons range more step =>
    rw [List.forall_mem_cons] at each
    rw [List.map_cons, List.mapM_cons, List.mapM_cons]
    refine each.1.bind ?_
    rintro one _ rfl
    refine (step each.2).bind ?_
    rintro others _ rfl
    exact .value _

/-- An access that both make, to what does not depend on the place. -/
theorem access {checked : Checked α} (ends : checked ≠ .error .endless) :
    Alike Eq (Indexed.access checked) (Indexed.access checked) := by
  cases checked with
  | ok value => exact .value value
  | error fault => exact .faulty fun same => ends (congrArg Except.error same)

end Alike

/-- A reading that makes no access in vain is like itself. -/
theorem Agrees.alike {α : Type} {guarded : Guarded α} {parsed : Parsed α} (agrees : Agrees Eq guarded parsed) :
    Alike Eq guarded guarded := by
  cases agrees with
  | ok same => exact .ok rfl
  | error error => exact .refused _ _ _

section Binds

variable {α : Type} {related : α → α → Prop} {done : List Token}

/-- Readings go on alike with what a search finds. -/
theorem Placed.bind {low high : Nat} {first second : Checked (Option Nat)} {goOn goOn' : Option Nat → Guarded α}
    (placed : Placed done low high first second) (missing : Alike related (goOn none) (goOn' none))
    (found : ∀ index, low ≤ index → index < high → Alike related (goOn (some (done.length + index))) (goOn' (some index))) :
    Alike related (access first >>= goOn) (access second >>= goOn') := by
  obtain ⟨found?, own, other, bounds⟩ := placed
  rw [access_bind own, access_bind other]
  cases found? with
  | none => exact missing
  | some index => exact found index (bounds index rfl).1 (bounds index rfl).2

/-- Readings go on alike with the ranges that a cut makes. -/
theorem PlacedAll.bind {sound : Nat × Nat → Prop} {first second : Checked (List (Nat × Nat))}
    {goOn goOn' : List (Nat × Nat) → Guarded α} (placed : PlacedAll done sound first second)
    (each : ∀ ranges, (∀ range ∈ ranges, sound range) → Alike related (goOn (ranges.map (placedRange done))) (goOn' ranges)) :
    Alike related (access first >>= goOn) (access second >>= goOn') := by
  obtain ⟨ranges, own, other, sounds⟩ := placed
  rw [access_bind own, access_bind other]
  exact each ranges sounds

end Binds

/-! ## Cursors that go on -/

/-- The same value, and cursors that have gone on over the same tokens, the first one among further ones. -/
def Onward {α : Type} (done after : List Token) (cursor : Cursor) (one other : α × Cursor) : Prop :=
  ∃ value index, cursor.index ≤ index ∧ index ≤ cursor.stop ∧ one = (value, (cursor.moved index).placed done after) ∧
    other = (value, cursor.moved index)

section Steps

variable {α : Type} {done after : List Token} {cursor : Cursor} {token : Token} {index : Nat}
  {first second : Guarded (α × Cursor)}

theorem Alike.onward (value : α) (low : cursor.index ≤ index) (high : index ≤ cursor.stop) :
    Alike (Onward done after cursor) (pure (value, (cursor.moved index).placed done after)) (pure (value, cursor.moved index)) :=
  .ok ⟨value, index, low, high, rfl, rfl⟩

/-- Nothing is taken. -/
theorem Alike.stay (within : cursor.Within) (value : α) :
    Alike (Onward done after cursor) (pure (value, cursor.placed done after)) (pure (value, cursor)) :=
  .onward value (Nat.le_refl _) within.ordered

/-- What goes on from further along goes on. -/
theorem Alike.before (low : cursor.index ≤ index) (alike : Alike (Onward done after (cursor.moved index)) first second) :
    Alike (Onward done after cursor) first second := by
  refine alike.mono ?_
  rintro _ _ ⟨value, index', low', high, rfl, rfl⟩
  exact ⟨value, index', low.trans low', high, rfl, rfl⟩

/-- The next token is taken. -/
theorem Alike.step (within : cursor.next.Within) (value : α) :
    Alike (Onward done after cursor) (pure (value, (cursor.placed done after).next)) (pure (value, cursor.next)) :=
  .before (Nat.le_succ _) (.stay within value)

theorem alike_expectEnd (within : cursor.Within) (construct : Construct) :
    Alike (fun _ _ => cursor.index = cursor.stop) ((cursor.placed done after).expectEnd construct)
      (cursor.expectEnd construct) := by
  rw [Cursor.expectEnd, Cursor.expectEnd, Cursor.peek_placed within]
  cases found : cursor.peek with
  | none => exact .ok (Cursor.peek_eq_none within found)
  | some token => exact .refused _ _ _

theorem alike_expect (within : cursor.Within) (kind : Token.Kind) (place : Requirement) :
    Alike (Onward done after cursor) ((cursor.placed done after).expect kind place) (cursor.expect kind place) := by
  rw [Cursor.expect, Cursor.expect, Cursor.peek_placed within]
  cases found : cursor.peek with
  | none => exact .refused _ _ _
  | some token => exact .ite (fun _ => .step (within.next found) token) fun _ => .refused _ _ _

/-- What has come next is known. -/
theorem alike_expect_token (within : cursor.Within) (kind : Token.Kind) (place : Requirement) :
    Alike (fun _ other => cursor.peek = some other.1 ∧ other.1.kind = kind) ((cursor.placed done after).expect kind place)
      (cursor.expect kind place) := by
  rw [Cursor.expect, Cursor.expect, Cursor.peek_placed within]
  cases found : cursor.peek with
  | none => exact .refused _ _ _
  | some token => exact .ite (fun isKind => .ok ⟨rfl, eq_of_beq isKind⟩) fun _ => .refused _ _ _

theorem alike_names {round : Nat} (within : cursor.Within) (long : cursor.stop - cursor.index < round) :
    Alike (Onward done after cursor) (Cursor.names round (cursor.placed done after)) (Cursor.names round cursor) := by
  induction round generalizing cursor with
  | zero => simp at long
  | succ round step =>
    rw [Cursor.names, Cursor.names, Cursor.peek_placed within]
    cases found : cursor.peek with
    | none => exact .stay within []
    | some token =>
      refine .ite (fun _ => ?_) fun _ => .stay within []
      refine (step (within.next found) (Cursor.rounds_moved found (Nat.le_refl _) long)).bind ?_
      rintro _ _ ⟨others, index, low, high, rfl, rfl⟩
      exact .onward _ (Nat.le_of_succ_le low) high

theorem alike_takeNames (within : cursor.Within) :
    Alike (Onward done after cursor) (cursor.placed done after).takeNames cursor.takeNames := by
  rw [Cursor.takeNames, Cursor.takeNames, Cursor.rounds_placed]
  exact alike_names within (Nat.lt_succ_self _)

/-- The bracket that closes one in front of where the cursor stops is found at the same place. -/
theorem alike_closing {opening : Nat} (inside : cursor.stop ≤ cursor.tokens.length) (ahead : opening < cursor.stop)
    (item : cursor.tokens[opening]? = some token) (opens : token.kind = .openCurly ∨ token.kind = .openBracket) :
    Alike (fun one other => one = done.length + other ∧ opening < other ∧ other < cursor.stop)
      (closing (cursor.placed done after) (done.length + opening)) (closing cursor opening) := by
  have own : Checked.item cursor.tokens opening = .ok token := by rw [Checked.item, item]
  have other : Checked.item (cursor.placed done after).tokens (done.length + opening) = .ok token := by
    rw [Cursor.placed, item_placed done after (by omega), own]
  have count : (cursor.placed done after).stop - (done.length + opening) = cursor.stop - (opening + 1) + 1 := by
    show done.length + cursor.stop - _ = _
    omega
  have count' : cursor.stop - opening = cursor.stop - (opening + 1) + 1 := by omega
  have search (kind closing : Token.Kind) (same : (token.kind == kind) = true) :
      Placed done (opening + 1) cursor.stop
        (closingFrom (cursor.placed done after).tokens kind closing ((cursor.placed done after).stop - (done.length + opening)) 0
          (done.length + opening))
        (closingFrom cursor.tokens kind closing (cursor.stop - opening) 0 opening) := by
    rw [count, count', closingFrom, closingFrom, own, other, Checked.ok_bind, Checked.ok_bind, if_pos same, if_pos same]
    exact (closingFrom_placed done after kind closing 0
      (show opening + 1 + (cursor.stop - (opening + 1)) ≤ cursor.tokens.length by omega)).mono (Nat.le_refl _)
      (by omega)
  rw [closing, closing, access_bind own, access_bind other]
  rcases opens with curly | round
  · rw [curly]
    refine (search _ _ (by rw [curly]; rfl)).bind (.refused _ _ _) fun index low high => .ok ⟨rfl, low, high⟩
  · rw [round]
    refine (search _ _ (by rw [round]; rfl)).bind (.refused _ _ _) fun index low high => .ok ⟨rfl, low, high⟩

/-- What stands in curly brackets is cut at its commas, and read alike if its parts are. -/
theorem alike_bracketed {read read' : List (Nat × Nat) → Guarded α} (within : cursor.Within) (found : cursor.peek = some token)
    (opens : token.kind = .openCurly) (empty : α)
    (each : ∀ ranges, (∀ range ∈ ranges, Between (cursor.index + 1) cursor.stop range) →
      Alike Eq (read (ranges.map (placedRange done))) (read' ranges)) :
    Alike (Onward done after cursor.next)
      (do
        let close ← closing (cursor.placed done after) (cursor.placed done after).index
        let value ←
          if (cursor.placed done after).index + 1 < close then do
            let ranges ← access (parts (cursor.placed done after).tokens ((cursor.placed done after).index + 1) close .comma)
            read ranges
          else pure empty
        return (value, (cursor.placed done after).moved (close + 1)))
      (do
        let close ← closing cursor cursor.index
        let value ←
          if cursor.index + 1 < close then do
            let ranges ← access (parts cursor.tokens (cursor.index + 1) close .comma)
            read' ranges
          else pure empty
        return (value, cursor.moved (close + 1))) := by
  obtain ⟨ahead, item⟩ := Cursor.peek_eq_some found
  refine (alike_closing within.inside ahead item (.inl opens)).bind ?_
  rintro _ close ⟨rfl, low, high⟩
  have same : (cursor.placed done after).index + 1 < done.length + close ↔ cursor.index + 1 < close := by
    show done.length + cursor.index + 1 < _ ↔ _
    omega
  have left (value : α) : Alike (Onward done after cursor.next)
      (pure (value, (cursor.placed done after).moved (done.length + close + 1))) (pure (value, cursor.moved (close + 1))) :=
    .onward _ (Nat.le_succ_of_le low) high
  dsimp only
  rw [if_congr same rfl rfl]
  refine .ite (fun _ => ?_) fun _ => left empty
  refine (parts_placed done after .comma low (high.le.trans within.inside)).bind fun ranges bounds => ?_
  refine Alike.bind_by Eq (each ranges fun range member => ?_) ?_
  · have between := bounds range member
    exact ⟨between.1, between.2.1, between.2.2.trans high.le⟩
  · rintro value _ rfl
    exact left value

end Steps

end DerwLang.Indexed
