/-
**Declarations among further tokens.**

A cursor among further tokens reads declarations, and those of a `let` above all, like the one over its own tokens
(`alike_localDefinitions`). The knot is tied for any two depths that exceed the weight of the tokens ahead (`readers_like`).
-/

import DerwLang.Proofs.Indexed.Declaration
import DerwLang.Proofs.Windows.Expression

namespace DerwLang.Indexed

section

variable {bound round : Nat} {done after : List Token} {cursor : Cursor} {token : Token} {range : Nat × Nat}

/-! ## Imports and exports -/

theorem alike_namesUpToClose (within : cursor.Within) (long : cursor.stop - cursor.index < round) :
    Alike (Onward done after cursor) (namesUpToClose round (cursor.placed done after)) (namesUpToClose round cursor) := by
  induction round generalizing cursor with
  | zero => simp at long
  | succ round step =>
    rw [namesUpToClose, namesUpToClose, Cursor.peek_placed within]
    cases found : cursor.peek with
    | none => exact .refused _ _ _
    | some token =>
      have inside := within.next found
      have goesOn := step inside (Cursor.rounds_moved found (Nat.le_refl _) long)
      dsimp only
      cases token.kind with
      | closeBracket => exact .step inside _
      | identifier =>
        refine goesOn.bind ?_
        rintro _ _ ⟨names, index, low, high, rfl, rfl⟩
        exact .onward _ (Nat.le_of_succ_le low) high
      | comma => exact goesOn.before (Nat.le_succ _)
      | operator sign =>
        cases sign with
        | range => exact goesOn.before (Nat.le_succ _)
        | _ => exact .refused _ _ _
      | _ => exact .refused _ _ _

theorem alike_nameList (within : cursor.Within) :
    Alike (Onward done after cursor) (nameList (cursor.placed done after)) (nameList cursor) := by
  rw [nameList, nameList]
  refine (alike_expect within .openBracket .toOpenNames).bind ?_
  rintro _ _ ⟨opening, index, low, high, rfl, rfl⟩
  dsimp only
  rw [Cursor.rounds_placed]
  exact (alike_namesUpToClose (within.moved high) (Nat.lt_succ_self _)).before low

/-- What is blamed for a module without a name is the token in front, which is one of the own ones. -/
theorem alike_moduleName (within : cursor.Within) (later : 0 < cursor.index) :
    Alike (fun one other => one.1 = other.1 ∧ Onward done after cursor one.2 other.2) (moduleName (cursor.placed done after))
      (moduleName cursor) := by
  have placed {cursor : Cursor} (later : 0 < cursor.index) :
      (cursor.placed done after).moved ((cursor.placed done after).index - 1) =
        (cursor.moved (cursor.index - 1)).placed done after := by
    rw [← Cursor.moved_placed, ← Nat.add_sub_assoc later]
    rfl
  have back {cursor : Cursor} (within : cursor.Within) : (cursor.moved (cursor.index - 1)).Within :=
    within.moved ((Nat.sub_le _ _).trans within.ordered)
  rw [moduleName, moduleName, Cursor.peek_placed within]
  cases found : cursor.peek with
  | none =>
    dsimp only
    rw [placed later, Cursor.found_placed (back within)]
    exact .refused _ _ _
  | some token =>
    have inside := within.next found
    dsimp only
    cases token.kind with
    | identifier | string => exact .ok ⟨rfl, _, _, Nat.le_succ _, inside.ordered, rfl, rfl⟩
    | _ =>
      dsimp only
      rw [Cursor.next_placed, placed (Nat.succ_pos _), Cursor.found_placed (back inside)]
      exact .refused _ _ _

/-- An import is read alike from the cursor after its first token. -/
theorem alike_importing (within : cursor.Within) (later : 0 < cursor.index) :
    Alike Eq (importing (cursor.placed done after)) (importing cursor) := by
  rw [importing, importing]
  refine (alike_moduleName within later).bind ?_
  rintro ⟨name, _⟩ ⟨_, _⟩ ⟨rfl, origin, index, low, high, rfl, rfl⟩
  have within := within.moved high
  refine Alike.bind_by (Onward done after (cursor.moved index)) ?_ ?_
  · dsimp only
    rw [Cursor.nextKind_placed within]
    refine .ite (fun isAs => ?_) fun _ => .stay within _
    have inside := within.next_of_nextKind isAs
    refine (alike_expect inside .identifier .afterAs).bind ?_
    rintro _ _ ⟨short, index', low', high', rfl, rfl⟩
    exact .onward _ (Nat.le_of_succ_le low') high'
  rintro _ _ ⟨alias?, index, low, high, rfl, rfl⟩
  have within := within.moved high
  refine Alike.bind_by (Onward done after (cursor.moved index)) ?_ ?_
  · rw [Cursor.nextKind_placed within]
    refine .ite (fun isExposing => ?_) fun _ => .stay within _
    exact (alike_nameList (within.next_of_nextKind isExposing)).before (Nat.le_succ _)
  rintro _ _ ⟨exposing, index, low, high, rfl, rfl⟩
  refine (alike_expectEnd (within.moved high) .importing).bind ?_
  intro _ _ _
  exact .value _

theorem alike_exposing (within : cursor.Within) : Alike Eq (exposing (cursor.placed done after)) (exposing cursor) := by
  rw [exposing, exposing]
  refine (alike_nameList within).bind ?_
  rintro _ _ ⟨names, index, low, high, rfl, rfl⟩
  refine (alike_expectEnd (within.moved high) .exposing).bind ?_
  intro _ _ _
  exact .value _

/-! ## Types -/

theorem alike_typedField {opening low : Nat} (within : cursor.Within) (ahead : opening < cursor.stop)
    (bounds : Between low cursor.stop range) :
    Alike Eq (typedField (cursor.placed done after).tokens (done.length + opening) (placedRange done range))
      (typedField cursor.tokens opening range) := by
  obtain ⟨own, other⟩ := slice_within done after within bounds
  obtain ⟨opener, item, item'⟩ := item_within done after within ahead
  rw [typedField, typedField, access_bind own, access_bind other]
  cases (cursor.tokens.take range.2).drop range.1 with
  | nil =>
    dsimp only [List.head?_nil]
    rw [access_bind item, access_bind item']
    exact .refused _ _ _
  | cons name rest =>
    cases rest with
    | nil => exact .refused _ _ _
    | cons colon rest =>
      cases rest with
      | nil => exact .refused _ _ _
      | cons first rest =>
        refine .ite (fun _ => ?_) fun _ => .refused _ _ _
        refine (agrees_typeOf (first :: rest)).alike.bind ?_
        rintro type _ rfl
        exact .value _

theorem alike_typedFields (within : cursor.Within) :
    Alike (Onward done after cursor) (typedFields (cursor.placed done after)) (typedFields cursor) := by
  rw [typedFields, typedFields]
  refine (alike_expect_token within .openCurly .toOpenFields).bind ?_
  rintro _ ⟨token, _⟩ ⟨found, opens⟩
  refine (alike_bracketed within found opens _ fun ranges each => ?_).before (Nat.le_succ _)
  exact .mapM fun range member => alike_typedField within (Cursor.peek_eq_some found).1 (each range member)

theorem alike_tag (within : cursor.Within) : Alike (Onward done after cursor) (tag (cursor.placed done after)) (tag cursor) := by
  rw [tag, tag]
  refine (alike_expect within .identifier .asTag).bind ?_
  rintro _ _ ⟨name, index, low, high, rfl, rfl⟩
  have within := within.moved high
  dsimp only
  rw [Cursor.nextKind_placed within]
  refine .ite (fun _ => ?_) fun _ => .onward _ low high
  refine (alike_typedFields within).bind ?_
  rintro _ _ ⟨fields, index', low', high', rfl, rfl⟩
  exact .onward _ (low.trans low') high'

theorem alike_tags (within : cursor.Within) (long : cursor.stop - cursor.index < round) :
    Alike (Onward done after cursor) (tags round (cursor.placed done after)) (tags round cursor) := by
  induction round generalizing cursor with
  | zero => simp at long
  | succ round step =>
    rw [tags, tags]
    refine (alike_tag within).bind ?_
    rintro _ _ ⟨first, index, low, high, rfl, rfl⟩
    have within := within.moved high
    dsimp only
    rw [Cursor.nextKind_placed within]
    refine .ite (fun goesOn => ?_) fun _ => .onward _ low high
    have inside := within.next_of_nextKind goesOn
    have ahead : index + 1 ≤ cursor.stop := inside.ordered
    have left : (cursor.moved index).next.stop - (cursor.moved index).next.index < round := by
      show cursor.stop - (index + 1) < round
      omega
    refine (step inside left).bind ?_
    rintro _ _ ⟨others, index', low', high', rfl, rfl⟩
    exact .onward _ (low.trans (Nat.le_of_succ_le low')) high'

theorem alike_unionType (within : cursor.Within) : Alike Eq (unionType (cursor.placed done after)) (unionType cursor) := by
  rw [unionType, unionType]
  refine (alike_expect within .identifier .afterType).bind ?_
  rintro _ _ ⟨name, index, -, high, rfl, rfl⟩
  have within := within.moved high
  refine (alike_takeNames within).bind ?_
  rintro _ _ ⟨parameters, index, -, high, rfl, rfl⟩
  have within := within.moved high
  refine (alike_expect within .assign (.afterTypeName name.body)).bind ?_
  rintro _ _ ⟨assign, index, -, high, rfl, rfl⟩
  have within := within.moved high
  dsimp only
  rw [Cursor.rounds_placed]
  refine (alike_tags within (Nat.lt_succ_self _)).bind ?_
  rintro _ _ ⟨tags, index, -, high, rfl, rfl⟩
  refine (alike_expectEnd (within.moved high) .unionType).bind ?_
  intro _ _ _
  exact .value _

theorem alike_typeAlias (within : cursor.Within) : Alike Eq (typeAlias (cursor.placed done after)) (typeAlias cursor) := by
  rw [typeAlias, typeAlias]
  refine (alike_expect within .identifier .afterAlias).bind ?_
  rintro _ _ ⟨name, index, -, high, rfl, rfl⟩
  have within := within.moved high
  refine (alike_takeNames within).bind ?_
  rintro _ _ ⟨parameters, index, -, high, rfl, rfl⟩
  have within := within.moved high
  refine (alike_expect within .assign (.afterAliasName name.body)).bind ?_
  rintro _ _ ⟨assign, index, -, high, rfl, rfl⟩
  have within := within.moved high
  refine (alike_typedFields within).bind ?_
  rintro _ _ ⟨properties, index, -, high, rfl, rfl⟩
  refine (alike_expectEnd (within.moved high) .typeAlias).bind ?_
  intro _ _ _
  exact .value _

/-! ## Definitions -/

theorem alike_optionalSignature (name : Token) (within : cursor.Within) :
    Alike (Onward done after cursor) (optionalSignature name (cursor.placed done after)) (optionalSignature name cursor) := by
  rw [optionalSignature, optionalSignature, Cursor.nextKind_placed within]
  refine .ite (fun isColon => ?_) fun _ => .stay within _
  have ahead := (within.next_of_nextKind isColon).ordered
  have ahead : cursor.index + 1 ≤ cursor.stop := ahead
  have := within.inside
  have count : (cursor.placed done after).stop - ((cursor.placed done after).index + 1) = cursor.stop - (cursor.index + 1) := by
    show done.length + cursor.stop - (done.length + cursor.index + 1) = _
    omega
  have search : Placed done (cursor.index + 1) cursor.stop
      (Checked.firstIndex (fun index => do
        let token ← Checked.item (cursor.placed done after).tokens index
        if token.kind == .identifier && token.body == name.body then startsLine (cursor.placed done after).tokens index
        else return false) (cursor.stop - (cursor.index + 1)) (done.length + (cursor.index + 1)))
      (Checked.firstIndex (fun index => do
        let token ← Checked.item cursor.tokens index
        if token.kind == .identifier && token.body == name.body then startsLine cursor.tokens index else return false)
        (cursor.stop - (cursor.index + 1)) (cursor.index + 1)) := by
    refine (firstIndex_placed fun place low high => ?_).mono (Nat.le_refl _) (by omega)
    obtain ⟨token, item, item'⟩ := item_within done after within (show place < cursor.stop by omega)
    obtain ⟨result, other, own⟩ := startsLine_placed done after (Nat.zero_lt_of_lt low)
      (show place < cursor.tokens.length by omega)
    have other : startsLine (cursor.placed done after).tokens (done.length + place) = .ok result := other
    rw [item, item', Checked.ok_bind, Checked.ok_bind, other, own]
    split
    · exact ⟨_, rfl, rfl⟩
    · exact ⟨_, rfl, rfl⟩
  dsimp only
  rw [count]
  refine search.bind (.refused _ _ _) fun index low high => ?_
  obtain ⟨own, other⟩ := slice_within done after within
    (show Between cursor.index cursor.stop (cursor.index + 1, index) from ⟨Nat.le_succ _, low, high.le⟩)
  have other : Checked.slice (cursor.placed done after).tokens ((cursor.placed done after).index + 1) (done.length + index) = _ :=
    other
  dsimp only
  rw [access_bind own, access_bind other]
  refine (agrees_signature _).alike.bind ?_
  rintro types _ rfl
  exact .onward _ (Nat.le_of_succ_le (Nat.le_succ_of_le low)) high

/-- Bodies are read alike, up to a weight. -/
def BodiesLike (bound : Nat) (read read' : Cursor → Guarded Body) : Prop :=
  ∀ {done after : List Token} {cursor : Cursor}, cursor.Within → cursor.load < bound →
    Alike Eq (read (cursor.placed done after)) (read' cursor)

variable {read read' : Cursor → Guarded Body}

theorem alike_definition (like : BodiesLike bound read read') (name : Token) (within : cursor.Within)
    (light : cursor.load < bound) :
    Alike Eq (definition read name (cursor.placed done after)) (definition read' name cursor) := by
  rw [definition, definition]
  refine (alike_optionalSignature name within).bind ?_
  rintro _ _ ⟨types?, index, low, high, rfl, rfl⟩
  refine (alike_takeNames (within.moved high)).bind ?_
  rintro _ _ ⟨arguments, index', low', high', rfl, rfl⟩
  refine (alike_expect (within.moved high') .assign (.inDefinition name.body)).bind ?_
  rintro _ _ ⟨assign, index'', low'', high'', rfl, rfl⟩
  have lighter : (cursor.moved index'').load < bound :=
    (Cursor.load_moved_le (low.trans (low'.trans low''))).trans_lt light
  refine (like (within.moved high'') lighter).bind ?_
  rintro body _ rfl
  cases types? with
  | none => exact .value _
  | some types => exact (agrees_typed _ _ _ _ _).alike

theorem alike_blockWith (like : BodiesLike bound read read') (within : cursor.Within) (light : cursor.load ≤ bound) :
    Alike Eq (blockWith read (cursor.placed done after)) (blockWith read' cursor) := by
  rw [blockWith, blockWith, Cursor.peek_placed within]
  cases found : cursor.peek with
  | none => exact .refused _ _ _
  | some token =>
    have inside := within.next found
    have lighter : cursor.next.load < bound := (Cursor.load_between_lt found (Nat.lt_succ_self _) (Nat.le_refl _)).trans_le light
    dsimp only
    rw [Cursor.next_placed, Cursor.peekAt_placed within]
    cases token.kind with
    | keyword word =>
      cases word with
      | importWord => exact alike_importing inside (Nat.succ_pos _)
      | exposingWord => exact alike_exposing inside
      | typeWord =>
        refine .ite (fun isAlias => ?_) fun _ => alike_unionType inside
        exact alike_typeAlias (inside.next_of_nextKind isAlias)
      | _ => exact .refused _ _ _
    | identifier => exact alike_definition like token inside lighter
    | _ => exact .refused _ _ _

/-! ## Local definitions -/

theorem alike_localDefinition (like : BodiesLike bound read read') (within : cursor.Within)
    (bounds : Between cursor.index cursor.stop range) (filled : range.1 < range.2) (light : cursor.load ≤ bound) :
    Alike Eq (localDefinition read (cursor.placed done after) (placedRange done range)) (localDefinition read' cursor range) := by
  rw [localDefinition, localDefinition]
  refine (alike_blockWith like (within.between bounds.2.1 bounds.2.2)
    ((Cursor.load_between_le bounds.1 bounds.2.2).trans light)).bind ?_
  rintro block _ rfl
  refine .ite (fun _ => .value _) fun _ => ?_
  obtain ⟨first, item, item'⟩ := item_within done after within (filled.trans_le bounds.2.2)
  have item' : Checked.item (cursor.placed done after).tokens (placedRange done range).1 = .ok first := item'
  rw [access_bind item, access_bind item']
  exact .refused _ _ _

/-- **The definitions of a `let` are read like those without the further tokens.** -/
theorem alike_localDefinitions (like : BodiesLike bound read read') (within : cursor.Within) (light : cursor.load ≤ bound) :
    Alike Eq (localDefinitions read (cursor.placed done after)) (localDefinitions read' cursor) := by
  have same : (cursor.placed done after).stop ≤ (cursor.placed done after).index ↔ cursor.stop ≤ cursor.index :=
    Nat.add_le_add_iff_left
  rw [localDefinitions, localDefinitions, if_congr same rfl rfl]
  refine .ite (fun _ => .refused _ _ _) fun some_ => ?_
  refine (splitBlocks_placed within (Nat.lt_of_not_le some_)).bind fun ranges each => ?_
  exact .mapM fun range member => alike_localDefinition like within (each range member).1 (each range member).2 light

end

end DerwLang.Indexed
