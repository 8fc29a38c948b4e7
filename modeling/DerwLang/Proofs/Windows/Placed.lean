/-
**A cursor among further tokens.**

Tokens put around those of a cursor move its two indices and change nothing ahead of it (`Cursor.placed`). Loops over indices
that stay within the cursor's own tokens come to the same places among the others, since they ask for no token outside:

* `Placed`: what is found by a search;
* `PlacedAll`: the ranges that a cut makes.

Both say as well that the loop misses nothing, and between which indices its results lie.
-/

import DerwLang.Indexed.Declaration
import DerwLang.Proofs.Indexed.Cursor

namespace DerwLang.Indexed

namespace Cursor

/-- The cursor with further tokens around its own. -/
def placed (done after : List Token) (cursor : Cursor) : Cursor :=
  ⟨done ++ (cursor.tokens ++ after), done.length + cursor.index, done.length + cursor.stop⟩

/-- The cursor has not passed its place to stop, and that is one of its tokens. -/
structure Within (cursor : Cursor) : Prop where
  ordered : cursor.index ≤ cursor.stop
  inside : cursor.stop ≤ cursor.tokens.length

/-- The tokens ahead, up to where the cursor stops. -/
def ahead (cursor : Cursor) : List Token :=
  (cursor.tokens.take cursor.stop).drop cursor.index

/-- The weight of the tokens ahead. -/
def load (cursor : Cursor) : Nat :=
  Window.weight ⟨0, cursor.ahead⟩

variable {done after : List Token} {cursor : Cursor} {token : Token}

theorem placed_nil (cursor : Cursor) : cursor.placed [] [] = cursor := by
  simp [placed]

/-! Where a placed cursor goes, it goes as the other one does. -/

theorem next_placed : (cursor.placed done after).next = cursor.next.placed done after := rfl

theorem moved_placed (index : Nat) :
    (cursor.placed done after).moved (done.length + index) = (cursor.moved index).placed done after := rfl

theorem within_start (tokens : List Token) : (start tokens).Within :=
  ⟨Nat.zero_le _, Nat.le_refl _⟩

theorem Within.moved (within : cursor.Within) {index : Nat} (upTo : index ≤ cursor.stop) : (cursor.moved index).Within :=
  ⟨upTo, within.inside⟩

theorem Within.between (within : cursor.Within) {index stop : Nat} (ordered : index ≤ stop) (upTo : stop ≤ cursor.stop) :
    (cursor.between index stop).Within :=
  ⟨ordered, upTo.trans within.inside⟩

/-! ## What is ahead -/

theorem peekAt_placed (within : cursor.Within) (offset : Nat) :
    (cursor.placed done after).peekAt offset = cursor.peekAt offset := by
  have := within.inside
  unfold peekAt placed
  dsimp only
  by_cases ahead : cursor.index + offset < cursor.stop
  · rw [if_pos ahead, if_pos (by omega), List.getElem?_append_right (by omega), List.getElem?_append_left (by omega)]
    congr 1
    omega
  · rw [if_neg ahead, if_neg (by omega)]

theorem peek_placed (within : cursor.Within) : (cursor.placed done after).peek = cursor.peek :=
  peekAt_placed within 0

theorem nextKind_placed (within : cursor.Within) : (cursor.placed done after).nextKind = cursor.nextKind := by
  rw [nextKind, nextKind, peek_placed within]

theorem found_placed (within : cursor.Within) : (cursor.placed done after).found = cursor.found := by
  rw [found, found, peek_placed within]

theorem rounds_placed : (cursor.placed done after).rounds = cursor.rounds := by
  simp [rounds, placed, Nat.add_sub_add_left]

/-- A token is ahead where the cursor does not stop. -/
theorem peek_eq_some (found : cursor.peek = some token) :
    cursor.index < cursor.stop ∧ cursor.tokens[cursor.index]? = some token := by
  rw [peek, peekAt, Nat.add_zero] at found
  split at found
  · exact ⟨‹_›, found⟩
  · cases found

theorem nextKind_eq_some {kind : Token.Kind} (found : cursor.nextKind = some kind) : cursor.index < cursor.stop := by
  obtain ⟨token, ahead, -⟩ := Option.map_eq_some_iff.mp found
  exact (peek_eq_some ahead).1

theorem peek_eq_none (within : cursor.Within) (found : cursor.peek = none) : cursor.index = cursor.stop := by
  have := within.ordered
  have := within.inside
  rw [peek, peekAt, Nat.add_zero] at found
  by_contra away
  rw [if_pos (by omega), List.getElem?_eq_none_iff] at found
  omega

theorem Within.next (within : cursor.Within) (found : cursor.peek = some token) : cursor.next.Within :=
  within.moved (peek_eq_some found).1

theorem Within.next_of_nextKind {kind : Token.Kind} (within : cursor.Within) (isKind : (cursor.nextKind == some kind) = true) :
    cursor.next.Within :=
  within.moved (nextKind_eq_some (eq_of_beq isKind))

/-- A loop that takes a token has rounds left for the others. -/
theorem rounds_moved {round index : Nat} (found : cursor.peek = some token) (low : cursor.next.index ≤ index)
    (long : cursor.stop - cursor.index < round + 1) : (cursor.moved index).stop - (cursor.moved index).index < round := by
  have := (peek_eq_some found).1
  have low : cursor.index + 1 ≤ index := low
  show cursor.stop - index < round
  omega

/-! ## Weight -/

theorem load_start (tokens : List Token) : (start tokens).load = Window.weight ⟨0, tokens⟩ := by
  rw [load, ahead, start, List.take_length, List.drop_zero]

theorem load_between_le {index stop : Nat} (low : cursor.index ≤ index) (high : stop ≤ cursor.stop) :
    (cursor.between index stop).load ≤ cursor.load := by
  refine Window.weight_le_of_sublist ?_
  have fewer : (cursor.tokens.take stop).Sublist (cursor.tokens.take cursor.stop) := List.take_sublist_take_left high
  have later : (cursor.tokens.take stop).drop index =
      ((cursor.tokens.take stop).drop cursor.index).drop (index - cursor.index) := by
    rw [List.drop_drop, Nat.add_sub_cancel' low]
  show ((cursor.tokens.take stop).drop index).Sublist _
  rw [later]
  exact (List.drop_sublist _ _).trans (fewer.drop cursor.index)

theorem load_moved_le {index : Nat} (low : cursor.index ≤ index) : (cursor.moved index).load ≤ cursor.load :=
  load_between_le low (Nat.le_refl _)

/-- The next token weighs as much as is missing behind it. -/
theorem load_eq (ahead : cursor.peek = some token) : cursor.load = token.weight + cursor.next.load := by
  obtain ⟨inside, found⟩ := peek_eq_some ahead
  have first : cursor.ahead = token :: cursor.next.ahead := by
    refine List.drop_eq_getElem?_toList_append.trans ?_
    rw [List.getElem?_take_of_lt inside, found]
    rfl
  rw [load, first]
  rfl

/-- Behind the next token there is less. -/
theorem load_between_lt {index stop : Nat} (ahead : cursor.peek = some token) (low : cursor.index < index)
    (high : stop ≤ cursor.stop) :
    (cursor.between index stop).load < cursor.load := by
  have later : (cursor.next.between index stop).load ≤ cursor.next.load := load_between_le low high
  have same : (cursor.next.between index stop).load = (cursor.between index stop).load := rfl
  have own := token.weight_pos
  rw [load_eq ahead]
  omega

end Cursor

/-! ## Access -/

section Access

variable {own : List Token} {index stop : Nat}

theorem item_ok (inside : index < own.length) : ∃ token, Checked.item own index = .ok token ∧ own[index]? = some token :=
  ⟨own[index], by rw [Checked.item, List.getElem?_eq_getElem inside], List.getElem?_eq_getElem inside⟩

theorem item_placed (done after : List Token) (inside : index < own.length) :
    Checked.item (done ++ (own ++ after)) (done.length + index) = Checked.item own index := by
  rw [Checked.item, List.getElem?_append_right (Nat.le_add_right _ _), Nat.add_sub_cancel_left,
    List.getElem?_append_left inside, Checked.item]

theorem slice_ok (ordered : index ≤ stop) (inside : stop ≤ own.length) :
    Checked.slice own index stop = .ok ((own.take stop).drop index) :=
  if_pos ⟨ordered, inside⟩

theorem slice_placed (done after : List Token) (ordered : index ≤ stop) (inside : stop ≤ own.length) :
    Checked.slice (done ++ (own ++ after)) (done.length + index) (done.length + stop) = Checked.slice own index stop := by
  rw [slice_ok ordered inside, slice_ok (by omega) (by simp; omega), List.take_length_add_append, List.drop_length_add_append,
    List.take_append_of_le_length inside]

/-- A token in front of where the cursor stops is the same among the placed ones. -/
theorem item_within (done after : List Token) {cursor : Cursor} (within : cursor.Within) (ahead : index < cursor.stop) :
    ∃ token, Checked.item cursor.tokens index = .ok token ∧
      Checked.item (cursor.placed done after).tokens (done.length + index) = .ok token := by
  have inside := ahead.trans_le within.inside
  obtain ⟨token, item, -⟩ := item_ok inside
  exact ⟨token, item, (item_placed done after inside).trans item⟩

end Access

/-! ## Searches -/

/-- A search among placed tokens finds the place that is found among the own ones, between two bounds. -/
def Placed (done : List Token) (low high : Nat) (first second : Checked (Option Nat)) : Prop :=
  ∃ found : Option Nat, second = .ok found ∧ first = .ok (found.map (done.length + ·)) ∧
    ∀ index ∈ found, low ≤ index ∧ index < high

section Searches

variable {done own after : List Token} {index count low high low' high' : Nat} {first second : Checked (Option Nat)}

theorem Placed.mono (placed : Placed done low high first second) (less : low' ≤ low) (more : high ≤ high') :
    Placed done low' high' first second := by
  obtain ⟨found, own, other, bounds⟩ := placed
  refine ⟨found, own, other, fun index member => ?_⟩
  have := bounds index member
  omega

theorem Placed.missing : Placed done low high (.ok none) (.ok none) :=
  ⟨none, rfl, rfl, fun _ member => by cases member⟩

theorem Placed.here (above : low ≤ index) (below : index < high) :
    Placed done low high (.ok (some (done.length + index))) (.ok (some index)) :=
  ⟨some index, rfl, rfl, fun _ member => by cases member; exact ⟨above, below⟩⟩

theorem closingFrom_placed (done after : List Token) (opening closing : Token.Kind) (depth : Nat)
    (inside : index + count ≤ own.length) :
    Placed done index (index + count)
      (closingFrom (done ++ (own ++ after)) opening closing count (depth + 1) (done.length + index))
      (closingFrom own opening closing count (depth + 1) index) := by
  induction count generalizing depth index with
  | zero => exact .missing
  | succ count step =>
    have whole : index + 1 + count = index + (count + 1) := by omega
    obtain ⟨token, item, -⟩ := item_ok (show index < own.length by omega)
    have further (depth : Nat) := (@step (index + 1) depth (by omega)).mono (Nat.le_succ index) whole.le
    rw [closingFrom, closingFrom, item_placed done after (by omega), item, Checked.ok_bind, Checked.ok_bind]
    split
    · exact further (depth + 1)
    · split
      · cases depth with
        | zero => exact .here (Nat.le_refl _) (by omega)
        | succ depth => exact further depth
      · exact further depth

theorem keywordFrom_placed (done after : List Token) (target opener : Keyword) (closer? : Option Keyword) (depth : Nat)
    (inside : index + count ≤ own.length) :
    Placed done index (index + count)
      (keywordFrom (done ++ (own ++ after)) target opener closer? count depth (done.length + index))
      (keywordFrom own target opener closer? count depth index) := by
  induction count generalizing depth index with
  | zero => exact .missing
  | succ count step =>
    have whole : index + 1 + count = index + (count + 1) := by omega
    obtain ⟨token, item, -⟩ := item_ok (show index < own.length by omega)
    have further (depth : Nat) := (@step (index + 1) depth (by omega)).mono (Nat.le_succ index) whole.le
    rw [keywordFrom, keywordFrom, item_placed done after (by omega), item, Checked.ok_bind, Checked.ok_bind]
    cases token.kind with
    | keyword word =>
      dsimp only
      split
      · exact .here (Nat.le_refl _) (by omega)
      · split
        · exact further (depth + 1)
        · split
          · exact further (depth - 1)
          · exact further depth
    | _ => exact further depth

/-- A search for the first place of a test that comes out the same among the placed tokens. -/
theorem firstIndex_placed {test test' : Nat → Checked Bool}
    (same : ∀ place, index ≤ place → place < index + count →
      ∃ result, test (done.length + place) = .ok result ∧ test' place = .ok result) :
    Placed done index (index + count) (Checked.firstIndex test count (done.length + index))
      (Checked.firstIndex test' count index) := by
  induction count generalizing index with
  | zero => exact .missing
  | succ count step =>
    obtain ⟨result, other, own⟩ := same index (Nat.le_refl _) (by omega)
    have whole : index + 1 + count = index + (count + 1) := by omega
    have further := (@step (index + 1) fun place low high => same place (by omega) (by omega)).mono (Nat.le_succ index) whole.le
    rw [Checked.firstIndex, Checked.firstIndex, other, own, Checked.ok_bind, Checked.ok_bind]
    split
    · exact .here (Nat.le_refl _) (by omega)
    · exact further

variable {cursor : Cursor}

theorem findKeyword_placed (within : cursor.Within) (target opener : Keyword) (closer? : Option Keyword)
    (upTo : index ≤ cursor.stop) :
    Placed done index cursor.stop (findKeyword (cursor.placed done after) (done.length + index) target opener closer?)
      (findKeyword cursor index target opener closer?) := by
  have := within.inside
  have count : done.length + cursor.stop - (done.length + index) = cursor.stop - index := by omega
  have search := keywordFrom_placed done after target opener closer? 0
    (show index + (cursor.stop - index) ≤ cursor.tokens.length by omega)
  rw [findKeyword, findKeyword, Cursor.placed]
  dsimp only
  rw [count]
  exact search.mono (Nat.le_refl _) (by omega)

theorem findKind_placed (within : cursor.Within) (kind : Token.Kind) :
    Placed done cursor.index cursor.stop (findKind (cursor.placed done after) kind) (findKind cursor kind) := by
  have := within.inside
  have := within.ordered
  have count : done.length + cursor.stop - (done.length + cursor.index) = cursor.stop - cursor.index := by omega
  rw [findKind, findKind, Cursor.placed]
  dsimp only
  rw [count]
  refine (firstIndex_placed fun place low high => ?_).mono (Nat.le_refl _) (by omega)
  obtain ⟨token, item, -⟩ := item_ok (show place < cursor.tokens.length by omega)
  rw [item_placed done after (by omega), item]
  exact ⟨_, rfl, rfl⟩

end Searches

/-! ## Cuts -/

/-- A range among placed tokens. -/
def placedRange (done : List Token) (range : Nat × Nat) : Nat × Nat :=
  (done.length + range.1, done.length + range.2)

/-- A cut among placed tokens makes the ranges that are made among the own ones, and these are as they should be. -/
def PlacedAll (done : List Token) (sound : Nat × Nat → Prop) (first second : Checked (List (Nat × Nat))) : Prop :=
  ∃ ranges, second = .ok ranges ∧ first = .ok (ranges.map (placedRange done)) ∧ ∀ range ∈ ranges, sound range

/-- A range between two bounds. -/
def Between (low high : Nat) (range : Nat × Nat) : Prop :=
  low ≤ range.1 ∧ range.1 ≤ range.2 ∧ range.2 ≤ high

section Cuts

variable {done own after : List Token} {start index count : Nat} {sound sound' : Nat × Nat → Prop}
  {first second : Checked (List (Nat × Nat))}

theorem PlacedAll.mono (placed : PlacedAll done sound first second) (weaker : ∀ range, sound range → sound' range) :
    PlacedAll done sound' first second := by
  obtain ⟨ranges, own, other, each⟩ := placed
  exact ⟨ranges, own, other, fun range member => weaker range (each range member)⟩

theorem PlacedAll.single {range : Nat × Nat} (fits : sound range) :
    PlacedAll done sound (.ok [placedRange done range]) (.ok [range]) :=
  ⟨[range], rfl, rfl, List.forall_mem_singleton.mpr fits⟩

theorem PlacedAll.cons {range : Nat × Nat} (fits : sound range) (placed : PlacedAll done sound first second) :
    PlacedAll done sound (do let others ← first; return placedRange done range :: others)
      (do let others ← second; return range :: others) := by
  obtain ⟨ranges, rfl, rfl, each⟩ := placed
  exact ⟨range :: ranges, rfl, rfl, List.forall_mem_cons.mpr ⟨fits, each⟩⟩

theorem partsFrom_placed (done after : List Token) (separator : Token.Kind) (depth : Nat) (ordered : start ≤ index)
    (inside : index + count ≤ own.length) :
    PlacedAll done (Between start (index + count))
      (partsFrom (done ++ (own ++ after)) separator count depth (done.length + start) (done.length + index))
      (partsFrom own separator count depth start index) := by
  induction count generalizing depth start index with
  | zero => exact .single ⟨Nat.le_refl _, ordered, Nat.le_refl _⟩
  | succ count step =>
    obtain ⟨token, item, -⟩ := item_ok (show index < own.length by omega)
    have whole : index + 1 + count = index + (count + 1) := by omega
    have further (depth : Nat) := @step start (index + 1) depth (by omega) (by omega)
    have anew : PlacedAll done (Between start (index + 1 + count)) _ _ :=
      (@step (index + 1) (index + 1) depth (Nat.le_refl _) (by omega)).mono fun range bounds =>
        ⟨(Nat.le_succ_of_le ordered).trans bounds.1, bounds.2⟩
    rw [partsFrom, partsFrom, item_placed done after (by omega), item, Checked.ok_bind, Checked.ok_bind, ← whole]
    cases token.kind with
    | openBracket | openCurly => exact further (depth + 1)
    | closeBracket | closeCurly => exact further (depth - 1)
    | _ =>
      dsimp only
      split
      · exact .cons ⟨Nat.le_refl _, ordered, by omega⟩ anew
      · exact further depth

theorem parts_placed (done after : List Token) (separator : Token.Kind) {stop : Nat} (ordered : start ≤ stop)
    (inside : stop ≤ own.length) :
    PlacedAll done (Between start stop) (parts (done ++ (own ++ after)) (done.length + start) (done.length + stop) separator)
      (parts own start stop separator) := by
  have count : done.length + stop - (done.length + start) = stop - start := by omega
  have cut := partsFrom_placed done after separator 0 (Nat.le_refl start)
    (show start + (stop - start) ≤ own.length by omega)
  rw [Nat.add_sub_cancel' ordered] at cut
  rw [parts, parts, count]
  exact cut

/-- A range of the cursor's tokens is the same among the placed ones. -/
theorem slice_within (done after : List Token) {cursor : Cursor} {low : Nat} {range : Nat × Nat} (within : cursor.Within)
    (bounds : Between low cursor.stop range) :
    Checked.slice cursor.tokens range.1 range.2 = .ok ((cursor.tokens.take range.2).drop range.1) ∧
      Checked.slice (cursor.placed done after).tokens (placedRange done range).1 (placedRange done range).2 =
        .ok ((cursor.tokens.take range.2).drop range.1) :=
  have inside := bounds.2.2.trans within.inside
  have own := slice_ok bounds.2.1 inside
  ⟨own, (slice_placed done after bounds.2.1 inside).trans own⟩

/-! ### Starts of lines -/

/-- Behind another token it is the same whether one starts a line. -/
theorem startsLine_placed (done after : List Token) (later : 0 < index) (inside : index < own.length) :
    ∃ result, startsLine (done ++ (own ++ after)) (done.length + index) = .ok result ∧ startsLine own index = .ok result := by
  obtain ⟨before, rfl⟩ : ∃ before, index = before + 1 := ⟨index - 1, by omega⟩
  obtain ⟨previous, item, -⟩ := item_ok (show before < own.length by omega)
  obtain ⟨token, item', -⟩ := item_ok inside
  refine ⟨token.startsLineAfter previous, ?_, ?_⟩
  · rw [startsLine, if_neg (by simp), ← Nat.add_assoc, Checked.minus_one, Checked.ok_bind,
      item_placed done after (by omega), item, Nat.add_assoc, item_placed done after inside, item']
    rfl
  · rw [startsLine, if_neg (by simp), Checked.minus_one, Checked.ok_bind, item, item']
    rfl

theorem rangesFrom_placed (start stop : Nat) (starts : List Nat) :
    rangesFrom (done.length + start) (done.length + stop) (starts.map (done.length + ·)) =
      (rangesFrom start stop starts).map (placedRange done) := by
  induction starts generalizing start with
  | nil => rfl
  | cons next more step => rw [List.map_cons, rangesFrom, rangesFrom, step, List.map_cons, placedRange]

theorem lineStarts_placed (done after : List Token) (column : Nat) (later : 0 < index) (inside : index + count ≤ own.length) :
    ∃ starts, lineStarts own column count index = .ok starts ∧
      lineStarts (done ++ (own ++ after)) column count (done.length + index) = .ok (starts.map (done.length + ·)) ∧
      ∀ start ≤ index, ∀ range ∈ rangesFrom start (index + count) starts, Between start (index + count) range := by
  induction count generalizing index with
  | zero => exact ⟨[], rfl, rfl, fun start below => List.forall_mem_singleton.mpr ⟨Nat.le_refl _, below, Nat.le_refl _⟩⟩
  | succ count step =>
    have ahead : index < own.length := by omega
    obtain ⟨token, item, -⟩ := item_ok ahead
    obtain ⟨result, other, here⟩ := startsLine_placed done after later ahead
    obtain ⟨starts, read, read', bounds⟩ := @step (index + 1) (by omega) (by omega)
    have whole : index + 1 + count = index + (count + 1) := by omega
    rw [whole] at bounds
    have read' : lineStarts (done ++ (own ++ after)) column count (done.length + index + 1) =
        .ok (starts.map (done.length + ·)) := read'
    rw [lineStarts, lineStarts, here, other, item_placed done after ahead, item, read, read']
    simp only [Checked.ok_bind, Checked.pure_eq]
    cases result && decide (token.column ≤ column) with
    | false => exact ⟨starts, rfl, rfl, fun start below => bounds start (by omega)⟩
    | true =>
      refine ⟨index :: starts, rfl, rfl, fun start below => List.forall_mem_cons.mpr ⟨⟨Nat.le_refl _, below, by omega⟩, ?_⟩⟩
      exact fun range member => ⟨below.trans (bounds index (by omega) range member).1, (bounds index (by omega) range member).2⟩

/-- The branches are cut at the same places among the placed tokens. -/
theorem branchRanges_placed (done after : List Token) {cursor : Cursor} (within : cursor.Within) (column : Nat)
    (some_ : cursor.index < cursor.stop) :
    ∃ starts,
      lineStarts cursor.tokens column (cursor.stop - (cursor.index + 1)) (cursor.index + 1) = .ok starts ∧
      lineStarts (cursor.placed done after).tokens column
        ((cursor.placed done after).stop - ((cursor.placed done after).index + 1)) ((cursor.placed done after).index + 1) =
          .ok (starts.map (done.length + ·)) ∧
      ∀ range ∈ rangesFrom cursor.index cursor.stop starts, Between cursor.index cursor.stop range := by
  have := within.inside
  have count : done.length + cursor.stop - (done.length + cursor.index + 1) = cursor.stop - (cursor.index + 1) := by omega
  obtain ⟨starts, read, read', bounds⟩ := lineStarts_placed done after column
    (Nat.succ_pos cursor.index) (show cursor.index + 1 + (cursor.stop - (cursor.index + 1)) ≤ cursor.tokens.length by omega)
  rw [Nat.add_sub_cancel' some_] at bounds
  refine ⟨starts, read, ?_, bounds _ (Nat.le_succ _)⟩
  rw [Cursor.placed]
  dsimp only
  rw [count]
  exact read'

/-! ### Declarations -/

theorem opensBlock_placed (done after : List Token) (column : Nat) (later : start < index) (inside : index < own.length) :
    ∃ result, opensBlock (done ++ (own ++ after)) column (done.length + start) (done.length + index) = .ok result ∧
      opensBlock own column start index = .ok result := by
  obtain ⟨before, rfl⟩ : ∃ before, index = before + 1 := ⟨index - 1, by omega⟩
  obtain ⟨previous, item, -⟩ := item_ok (show before < own.length by omega)
  obtain ⟨token, item', -⟩ := item_ok inside
  have front : start < own.length := by omega
  obtain ⟨head, item'', -⟩ := item_ok front
  -- The token behind the first one is asked for without care, but some token is known to be behind that one.
  have second : (done ++ (own ++ after))[done.length + start + 1]? = own[start + 1]? := by
    rw [Nat.add_assoc, List.getElem?_append_right (by omega), List.getElem?_append_left (by omega)]
    congr 1
    omega
  have slice := slice_ok (Nat.le_of_lt later) (Nat.le_of_lt inside)
  have slice' : Checked.slice (done ++ (own ++ after)) (done.length + start) (done.length + before + 1) = _ :=
    slice_placed done after (Nat.le_of_lt later) (Nat.le_of_lt inside)
  rw [opensBlock, opensBlock, item_placed done after inside, ← Nat.add_assoc, Checked.minus_one, Checked.minus_one]
  simp only [Checked.ok_bind, Checked.pure_eq, item_placed done after (show before < own.length by omega),
    item_placed done after front, item, item', item'', second, slice', slice]
  split
  · exact ⟨_, rfl, rfl⟩
  · split
    · exact ⟨_, rfl, rfl⟩
    · split
      · exact ⟨_, rfl, rfl⟩
      · split <;> exact ⟨_, rfl, rfl⟩

theorem blocksFrom_placed (done after : List Token) (column : Nat) (ordered : start < index)
    (inside : index + count ≤ own.length) :
    PlacedAll done (fun range => Between start (index + count) range ∧ range.1 < range.2)
      (blocksFrom (done ++ (own ++ after)) column count (done.length + start) (done.length + index))
      (blocksFrom own column count start index) := by
  induction count generalizing start index with
  | zero => exact .single ⟨⟨Nat.le_refl _, Nat.le_of_lt ordered, Nat.le_refl _⟩, ordered⟩
  | succ count step =>
    obtain ⟨result, other, here⟩ := opensBlock_placed done after column ordered (show index < own.length by omega)
    have whole : index + 1 + count = index + (count + 1) := by omega
    have further := @step start (index + 1) (by omega) (by omega)
    have anew : PlacedAll done (fun range => Between start (index + 1 + count) range ∧ range.1 < range.2) _ _ :=
      (@step index (index + 1) (Nat.lt_succ_self _) (by omega)).mono fun range bounds =>
        ⟨⟨ordered.le.trans bounds.1.1, bounds.1.2⟩, bounds.2⟩
    rw [blocksFrom, blocksFrom, other, here, Checked.ok_bind, Checked.ok_bind, ← whole]
    split
    · exact .cons ⟨⟨Nat.le_refl _, Nat.le_of_lt ordered, by omega⟩, ordered⟩ anew
    · exact further

/-- **Declarations are cut at the same places among the placed tokens.** -/
theorem splitBlocks_placed {cursor : Cursor} (within : cursor.Within) (some_ : cursor.index < cursor.stop) :
    PlacedAll done (fun range => Between cursor.index cursor.stop range ∧ range.1 < range.2)
      (splitBlocks (cursor.placed done after).tokens (cursor.placed done after).index (cursor.placed done after).stop)
      (splitBlocks cursor.tokens cursor.index cursor.stop) := by
  have inside := within.inside
  obtain ⟨first, -, found⟩ := item_ok (show cursor.index < cursor.tokens.length by omega)
  have found' : (done ++ (cursor.tokens ++ after))[done.length + cursor.index]? = some first := by
    rw [List.getElem?_append_right (by omega), List.getElem?_append_left (by omega), Nat.add_sub_cancel_left, found]
  have count : done.length + cursor.stop - (done.length + cursor.index + 1) = cursor.stop - (cursor.index + 1) := by omega
  have cut := blocksFrom_placed done after first.column (Nat.lt_succ_self cursor.index)
    (show cursor.index + 1 + (cursor.stop - (cursor.index + 1)) ≤ cursor.tokens.length by omega)
  rw [Nat.add_sub_cancel' some_] at cut
  rw [splitBlocks, splitBlocks, found, Cursor.placed]
  dsimp only
  rw [found']
  dsimp only
  rw [count]
  exact cut

end Cuts

end DerwLang.Indexed
