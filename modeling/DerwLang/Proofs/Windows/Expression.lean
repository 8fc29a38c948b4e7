/-
**Expressions among further tokens.**

A cursor among further tokens reads an expression like the one over its own tokens, as long as that holds of what is nested
(`Readers.Like`). The two may have readers of different depths for that, since what is nested weighs less: it lacks the token
that opens it, or it is the interior of a literal.
-/

import DerwLang.Proofs.Indexed.Expression
import DerwLang.Proofs.Windows.Pattern

namespace DerwLang.Indexed

open Grammar (isListLiteral loneName? negatedNumber?)

/-- What is nested is read alike, up to a weight. -/
structure Readers.Like (bound : Nat) (readers readers' : Readers) : Prop where
  expression : ∀ {done after : List Token} {cursor : Cursor}, cursor.Within → cursor.load < bound →
    Alike Eq (readers.expression (cursor.placed done after)) (readers'.expression cursor)
  body : ∀ {done after : List Token} {cursor : Cursor}, cursor.Within → cursor.load < bound →
    Alike Eq (readers.body (cursor.placed done after)) (readers'.body cursor)

section

variable {bound : Nat} {readers readers' : Readers} {done after : List Token} {cursor : Cursor} {token : Token}
  {range : Nat × Nat}
  {ranges : List (Nat × Nat)} {low : Nat}

/-! ## Records and lists -/

theorem alike_recordField (like : readers.Like bound readers') (within : cursor.Within) (found : cursor.peek = some token)
    (light : cursor.load ≤ bound) (bounds : Between (cursor.index + 1) cursor.stop range) :
    Alike Eq (recordField readers (cursor.placed done after) (cursor.placed done after).index (placedRange done range))
      (recordField readers' cursor cursor.index range) := by
  obtain ⟨own, other⟩ := slice_within done after within bounds
  have length : ((cursor.tokens.take range.2).drop range.1).length = range.2 - range.1 := by
    have := bounds.2.2.trans within.inside
    simp
    omega
  rw [recordField, recordField, access_bind own, access_bind other]
  generalize (cursor.tokens.take range.2).drop range.1 = tokens at length
  cases tokens with
  | nil =>
    obtain ⟨opener, item, item'⟩ := item_within done after within (Cursor.peek_eq_some found).1
    have item' : Checked.item (cursor.placed done after).tokens (cursor.placed done after).index = .ok opener := item'
    dsimp only
    rw [access_bind item, access_bind item']
    exact .refused _ _ _
  | cons name rest =>
    cases rest with
    | nil => exact .refused _ _ _
    | cons colon value =>
      refine .ite (fun _ => ?_) fun _ => .refused _ _ _
      have size : value.length + 2 = range.2 - range.1 := length
      have start := bounds.1
      have inside : (cursor.between (range.1 + 2) range.2).Within := within.between (by omega) bounds.2.2
      have lighter : (cursor.between (range.1 + 2) range.2).load < bound :=
        (Cursor.load_between_lt found (by omega) bounds.2.2).trans_le light
      refine (like.expression inside lighter).bind ?_
      rintro value _ rfl
      exact .value _

theorem alike_recordFields (like : readers.Like bound readers') (within : cursor.Within) (found : cursor.peek = some token)
    (light : cursor.load ≤ bound) (each : ∀ range ∈ ranges, Between (cursor.index + 1) cursor.stop range) :
    Alike Eq (recordFields readers (cursor.placed done after) (cursor.placed done after).index (ranges.map (placedRange done)))
      (recordFields readers' cursor cursor.index ranges) := by
  have fields : ∀ {ranges : List (Nat × Nat)}, (∀ range ∈ ranges, Between (cursor.index + 1) cursor.stop range) →
      Alike Eq
        ((ranges.map (placedRange done)).mapM (recordField readers (cursor.placed done after) (cursor.placed done after).index))
        (ranges.mapM (recordField readers' cursor cursor.index)) :=
    fun each => .mapM fun range member => alike_recordField like within found light (each range member)
  cases ranges with
  | nil => exact .value _
  | cons range more =>
    have all := List.forall_mem_cons.mp each
    obtain ⟨own, other⟩ := slice_within done after within all.1
    rw [List.map_cons, recordFields, recordFields, access_bind own, access_bind other]
    cases loneName? ⟨0, (cursor.tokens.take range.2).drop range.1⟩ with
    | some base =>
      refine (fields all.2).bind ?_
      rintro fields _ rfl
      exact .value _
    | none =>
      refine (fields each).bind ?_
      rintro fields _ rfl
      exact .value _

theorem alike_recordLiteral (like : readers.Like bound readers') (within : cursor.Within) (found : cursor.peek = some token)
    (opens : token.kind = .openCurly) (light : cursor.load ≤ bound) :
    Alike (Onward done after cursor.next) (recordLiteral readers (cursor.placed done after)) (recordLiteral readers' cursor) :=
  alike_bracketed within found opens _ fun _ each => alike_recordFields like within found light each

theorem alike_listItem (like : readers.Like bound readers') (line : Nat) (within : cursor.Within)
    (bounds : Between cursor.index cursor.stop range) (light : cursor.load < bound) :
    Alike Eq (listItem readers (cursor.placed done after) line (placedRange done range))
      (listItem readers' cursor line range) := by
  have same : ((placedRange done range).1 == (placedRange done range).2) = (range.1 == range.2) := by
    simp [placedRange]
  rw [listItem, listItem, same]
  refine .ite (fun _ => .refused _ _ _) fun _ => ?_
  exact like.expression (within.between bounds.2.1 bounds.2.2) ((Cursor.load_between_le bounds.1 bounds.2.2).trans_lt light)

/-- What is read of a list literal lies between its brackets, if it has both of them. -/
theorem interior_shorter (isList : isListLiteral token = true) :
    ∃ inside, interior token = .ok inside ∧ inside.length < token.body.length := by
  obtain ⟨stop, minus, ⟨inside, found, short⟩ | ⟨fault, found, -⟩⟩ := chars_interior isList
  · refine ⟨String.ofList inside, ?_, by rwa [String.length_ofList]⟩
    rw [interior, minus, Checked.ok_bind, found]
    rfl
  · obtain ⟨rest, opened⟩ := isListLiteral_opened isList
    have length : token.body.length = rest.length + 1 := by rw [← String.length_toList, opened, List.length_cons]
    refine ⟨"", ?_, length ▸ Nat.succ_pos _⟩
    rw [interior, minus, Checked.ok_bind, found]
    rfl

/-- **A list literal is read alike wherever it stands.** -/
theorem alike_listLiteral (like : readers.Like bound readers') (isList : isListLiteral token = true)
    (light : token.weight ≤ bound) :
    Alike Eq (listLiteral readers token) (listLiteral readers' token) := by
  obtain ⟨inside, read, short⟩ := interior_shorter isList
  have lighter : (Cursor.start (Token.significant (DerwLang.tokenizeAt inside token.line (token.column + 1)))).load < bound := by
    have among : Window.weight ⟨0, Token.significant (DerwLang.tokenizeAt inside token.line (token.column + 1))⟩ ≤
        Window.weight ⟨0, DerwLang.tokenizeAt inside token.line (token.column + 1)⟩ :=
          Window.weight_le_of_sublist List.filter_sublist
    have own : token.body.length ≤ token.weight := Nat.le_max_right _ _
    rw [weight_tokenizeAt] at among
    rw [Cursor.load_start]
    omega
  rw [listLiteral, listLiteral, access_bind read, access_bind read, access_bind (tokenizeAt_ok _ _ _),
    access_bind (tokenizeAt_ok _ _ _)]
  generalize Token.significant (DerwLang.tokenizeAt inside token.line (token.column + 1)) = tokens at lighter
  dsimp only
  refine .ite (fun _ => .value _) fun _ => ?_
  cases found : tokens.findIdx? fun token => token.kind == .operator .range with
  | some index =>
    have within : index < tokens.length := (List.findIdx?_eq_some_iff_getElem.mp found).1
    refine (agrees_rangeBound (slice_ok (Nat.zero_le index) within.le)).alike.bind ?_
    rintro first _ rfl
    refine (agrees_rangeBound (slice_ok within (Nat.le_refl tokens.length))).alike.bind ?_
    rintro last _ rfl
    exact .value _
  | none =>
    -- The interior has tokens of its own: nothing stands around them in either reading.
    obtain ⟨ranges, read, -, each⟩ := parts_placed [] [] .comma (Nat.zero_le _) (Nat.le_refl tokens.length)
    dsimp only
    rw [access_bind read, access_bind read]
    refine Alike.bind_by Eq ?_ ?_
    · have item (range : Nat × Nat) (member : range ∈ ranges) :
          Alike Eq (listItem readers ((Cursor.start tokens).placed [] []) token.line (placedRange [] range))
            (listItem readers' (Cursor.start tokens) token.line range) :=
        alike_listItem like token.line (Cursor.within_start tokens) (each range member) lighter
      have same : placedRange [] = id := funext fun range => by simp [placedRange]
      have items := Alike.mapM item
      rwa [same, List.map_id, Cursor.placed_nil] at items
    · rintro items _ rfl
      exact .value _

/-! ## Atoms -/

theorem alike_atom (like : readers.Like bound readers') (within : cursor.Within) (light : cursor.load ≤ bound) :
    Alike (Onward done after cursor.next) (atom readers (cursor.placed done after)) (atom readers' cursor) := by
  rw [atom, atom, Cursor.peek_placed within]
  cases found : cursor.peek with
  | none => exact .refused _ _ _
  | some token =>
    have inside := within.next found
    obtain ⟨ahead, item⟩ := Cursor.peek_eq_some found
    have opening : Checked.minus cursor.next.index 1 = .ok cursor.index := Checked.minus_one _
    have opening' : Checked.minus (cursor.placed done after).next.index 1 = .ok (cursor.placed done after).index :=
      Checked.minus_one _
    dsimp only
    cases kind : token.kind with
    | literal =>
      refine .ite (fun isList => ?_) fun _ => .stay inside _
      have own : token.weight ≤ bound := (Nat.le_add_right _ _).trans ((Cursor.load_eq found).symm.le.trans light)
      refine (alike_listLiteral like isList own).bind ?_
      rintro items _ rfl
      exact .stay inside _
    | string | formatString => exact .stay inside _
    | openBracket =>
      dsimp only
      rw [access_bind opening, access_bind opening']
      refine (alike_closing inside.inside ahead item (.inr kind)).bind ?_
      rintro _ close ⟨rfl, low, high⟩
      have lighter : (cursor.between (cursor.index + 1) close).load < bound :=
        (Cursor.load_between_lt found (Nat.lt_succ_self _) high.le).trans_le light
      refine (like.expression (within.between low high.le) lighter).bind ?_
      rintro inner _ rfl
      exact .onward _ (Nat.le_succ_of_le low) high
    | openCurly =>
      dsimp only
      rw [access_bind opening, access_bind opening']
      refine Alike.bind_by (Onward done after cursor.next) (alike_recordLiteral like within found kind light) ?_
      rintro _ _ ⟨literal, index, low, high, rfl, rfl⟩
      exact .onward _ low high
    | identifier =>
      dsimp only
      rw [Cursor.next_placed, Cursor.nextKind_placed inside, access_bind (reference_eq _ _), access_bind (reference_eq _ _)]
      refine .ite (fun opens => ?_) fun _ => .stay inside _
      obtain ⟨opener, found', curly⟩ := Option.map_eq_some_iff.mp (eq_of_beq (Bool.and_eq_true_iff.mp opens).2)
      have lighter : cursor.next.load ≤ bound := (Cursor.load_moved_le (Nat.le_succ _)).trans light
      refine (alike_recordLiteral like inside found' curly lighter).bind ?_
      rintro _ _ ⟨literal, index, low, high, rfl, rfl⟩
      exact .onward _ (Nat.le_of_succ_le low) high
    | operator sign =>
      cases sign with
      | minus =>
        dsimp only
        rw [Cursor.next_placed, Cursor.peek_placed inside]
        cases found' : cursor.next.peek with
        | none => exact .refused _ _ _
        | some number =>
          dsimp only
          cases negatedNumber? token number with
          | none => exact .refused _ _ _
          | some text => exact .step (inside.next found') _
      | _ => exact .refused _ _ _
    | _ => exact .refused _ _ _

/-! ## Operands -/

theorem alike_arguments (like : readers.Like bound readers') {round : Nat} (within : cursor.Within) (light : cursor.load ≤ bound)
    (long : cursor.stop - cursor.index < round) :
    Alike (Onward done after cursor) (arguments readers round (cursor.placed done after)) (arguments readers' round cursor) := by
  induction round generalizing cursor with
  | zero => simp at long
  | succ round step =>
    rw [arguments, arguments, Cursor.nextKind_placed within]
    refine .ite (fun starts => ?_) fun _ => .stay within _
    obtain ⟨token, found⟩ : ∃ token, cursor.peek = some token := by
      rw [Cursor.nextKind] at starts
      cases found : cursor.peek with
      | none => simp [found] at starts
      | some token => exact ⟨token, rfl⟩
    refine (alike_atom like within light).bind ?_
    rintro _ _ ⟨first, index, low, high, rfl, rfl⟩
    have lighter : (cursor.moved index).load ≤ bound := (Cursor.load_moved_le (Nat.le_of_succ_le low)).trans light
    refine (step (within.moved high) lighter (Cursor.rounds_moved found low long)).bind ?_
    rintro _ _ ⟨others, index', low', high', rfl, rfl⟩
    exact .onward _ ((Nat.le_of_succ_le low).trans low') high'

theorem alike_conditional (like : readers.Like bound readers') (within : cursor.Within) (light : cursor.load < bound) :
    Alike Eq (conditional readers (cursor.placed done after)) (conditional readers' cursor) := by
  rw [conditional, conditional]
  refine (findKeyword_placed within _ _ _ within.ordered).bind (.refused _ _ _) fun yes low high => ?_
  refine (findKeyword_placed within _ _ _ high).bind (.refused _ _ _) fun no low' high' => ?_
  have lighter {index stop : Nat} (low : cursor.index ≤ index) (high : stop ≤ cursor.stop) :
      (cursor.between index stop).load < bound :=
    (Cursor.load_between_le low high).trans_lt light
  refine (like.expression (within.between low high.le) (lighter (Nat.le_refl _) high.le)).bind ?_
  rintro test _ rfl
  refine (like.body (within.between low' high'.le) (lighter (Nat.le_succ_of_le low) high'.le)).bind ?_
  rintro whenTrue _ rfl
  refine (like.body (within.between high' (Nat.le_refl _)) (lighter (by omega) (Nat.le_refl _))).bind ?_
  rintro whenFalse _ rfl
  exact .value _

theorem alike_branch (like : readers.Like bound readers') (within : cursor.Within) (light : cursor.load < bound) :
    Alike Eq (branch readers (cursor.placed done after)) (branch readers' cursor) := by
  rw [branch, branch, Cursor.found_placed within]
  refine (findKind_placed within _).bind (.refused _ _ _) fun arrow low high => ?_
  refine (alike_pattern (within.between low high.le)).bind ?_
  rintro pattern _ rfl
  have lighter : (cursor.between (arrow + 1) cursor.stop).load < bound :=
    (Cursor.load_between_le (Nat.le_succ_of_le low) (Nat.le_refl _)).trans_lt light
  refine (like.body (within.between high (Nat.le_refl _)) lighter).bind ?_
  rintro body _ rfl
  exact .value _

theorem alike_branches (like : readers.Like bound readers') (within : cursor.Within) (light : cursor.load < bound) :
    Alike Eq (branches readers (cursor.placed done after)) (branches readers' cursor) := by
  have same : (cursor.placed done after).stop ≤ (cursor.placed done after).index ↔ cursor.stop ≤ cursor.index :=
    Nat.add_le_add_iff_left
  rw [branches, branches, if_congr same rfl rfl]
  refine .ite (fun _ => .refused _ _ _) fun some_ => ?_
  have some_ := Nat.lt_of_not_le some_
  obtain ⟨first, item, item'⟩ := item_within done after within some_
  have item' : Checked.item (cursor.placed done after).tokens (cursor.placed done after).index = .ok first := item'
  obtain ⟨starts, read, read', bounds⟩ := branchRanges_placed done after within first.column some_
  rw [access_bind item, access_bind item', access_bind read, access_bind read']
  have ranges : rangesFrom (cursor.placed done after).index (cursor.placed done after).stop (starts.map (done.length + ·)) = _ :=
    rangesFrom_placed cursor.index cursor.stop starts
  rw [ranges]
  refine .mapM fun range member => ?_
  have between := bounds range member
  exact alike_branch like (within.between between.2.1 between.2.2) ((Cursor.load_between_le between.1 between.2.2).trans_lt light)

theorem alike_caseOf (like : readers.Like bound readers') (within : cursor.Within) (light : cursor.load < bound) :
    Alike Eq (caseOf readers (cursor.placed done after)) (caseOf readers' cursor) := by
  rw [caseOf, caseOf]
  refine (findKeyword_placed within _ _ _ within.ordered).bind (.refused _ _ _) fun middle low high => ?_
  have lighter : (cursor.between cursor.index middle).load < bound :=
    (Cursor.load_between_le (Nat.le_refl _) high.le).trans_lt light
  refine (like.expression (within.between low high.le) lighter).bind ?_
  rintro predicate _ rfl
  have lighter' : (cursor.moved (middle + 1)).load < bound := (Cursor.load_moved_le (Nat.le_succ_of_le low)).trans_lt light
  refine (alike_branches like (within.moved high) lighter').bind ?_
  rintro branches _ rfl
  exact .value _

theorem alike_lambda (like : readers.Like bound readers') (within : cursor.Within) (light : cursor.load < bound) :
    Alike Eq (lambda readers (cursor.placed done after)) (lambda readers' cursor) := by
  rw [lambda, lambda]
  refine (alike_takeNames within).bind ?_
  rintro _ _ ⟨parameters, index, low, high, rfl, rfl⟩
  dsimp only
  rw [Cursor.found_placed (within.moved high)]
  refine .ite (fun _ => .refused _ _ _) fun _ => ?_
  refine (alike_expect (within.moved high) .arrow .afterLambdaArguments).bind ?_
  rintro _ _ ⟨arrow, index', low', high', rfl, rfl⟩
  have lighter : (cursor.moved index').load < bound := (Cursor.load_moved_le (low.trans low')).trans_lt light
  refine (like.expression (within.moved high') lighter).bind ?_
  rintro body _ rfl
  exact .value _

theorem alike_operand (like : readers.Like bound readers') (within : cursor.Within) (light : cursor.load ≤ bound) :
    Alike (Onward done after cursor) (operand readers (cursor.placed done after)) (operand readers' cursor) := by
  have atom : Alike (Onward done after cursor) (atom readers (cursor.placed done after)) (atom readers' cursor) :=
    (alike_atom like within light).before (Nat.le_succ _)
  rw [operand, operand, Cursor.peek_placed within]
  cases found : cursor.peek with
  | none => exact .refused _ _ _
  | some token =>
    have inside := within.next found
    have lighter : cursor.next.load < bound := (Cursor.load_between_lt found (Nat.lt_succ_self _) (Nat.le_refl _)).trans_le light
    have whole (value : Expression) : Alike (Onward done after cursor)
        (pure (value, (cursor.placed done after).moved (cursor.placed done after).stop))
          (pure (value, cursor.moved cursor.stop)) :=
      .onward _ within.ordered (Nat.le_refl _)
    dsimp only
    cases token.kind with
    | keyword word =>
      cases word with
      | ifWord =>
        refine (alike_conditional like inside lighter).bind ?_
        rintro value _ rfl
        exact whole _
      | caseWord =>
        refine (alike_caseOf like inside lighter).bind ?_
        rintro value _ rfl
        exact whole _
      | _ => exact atom
    | backslash =>
      refine (alike_lambda like inside lighter).bind ?_
      rintro value _ rfl
      exact whole _
    | identifier =>
      refine .ite (fun _ => atom) fun _ => ?_
      rw [Cursor.next_placed, Cursor.rounds_placed]
      refine (alike_arguments like inside lighter.le (Nat.lt_succ_self _)).bind ?_
      rintro _ _ ⟨arguments, index, low, high, rfl, rfl⟩
      dsimp only
      rw [access_bind (reference_eq _ _), access_bind (reference_eq _ _)]
      exact .onward _ (Nat.le_of_succ_le low) high
    | _ => exact atom

/-! ## Chains -/

theorem alike_links (like : readers.Like bound readers') {round : Nat} (comparing : Comparing) (within : cursor.Within)
    (light : cursor.load ≤ bound) (long : cursor.stop - cursor.index < round) :
    Alike (Onward done after cursor) (links readers round comparing (cursor.placed done after))
      (links readers' round comparing cursor) := by
  induction round generalizing comparing cursor with
  | zero => simp at long
  | succ round step =>
    rw [links, links, Cursor.peek_placed within]
    cases found : cursor.peek with
    | none => exact .stay within _
    | some token =>
      dsimp only
      cases BinaryOperator.ofKind? token.kind with
      | none => exact .stay within _
      | some operator =>
        dsimp only
        cases comparing.chainedWith operator with
        | some first => exact .refused _ _ _
        | none =>
          have lighter {index : Nat} (low : cursor.next.index ≤ index) : (cursor.moved index).load ≤ bound :=
            (Cursor.load_moved_le (Nat.le_of_succ_le low)).trans light
          refine (alike_operand like (within.next found) (lighter (Nat.le_refl _))).bind ?_
          rintro _ _ ⟨operand, index, low, high, rfl, rfl⟩
          refine (step _ (within.moved high) (lighter low) (Cursor.rounds_moved found low long)).bind ?_
          rintro _ _ ⟨others, index', low', high', rfl, rfl⟩
          exact .onward _ ((Nat.le_of_succ_le low).trans low') high'

/-- **A chain is read like the one without the further tokens.** -/
theorem alike_chain (like : readers.Like bound readers') (within : cursor.Within) (light : cursor.load ≤ bound) :
    Alike (Onward done after cursor) (chain readers (cursor.placed done after)) (chain readers' cursor) := by
  rw [chain, chain]
  refine (alike_operand like within light).bind ?_
  rintro _ _ ⟨first, index, low, high, rfl, rfl⟩
  dsimp only
  rw [Cursor.rounds_placed]
  refine (alike_links like none (within.moved high) ((Cursor.load_moved_le low).trans light) (Nat.lt_succ_self _)).bind ?_
  rintro _ _ ⟨links, index', low', high', rfl, rfl⟩
  exact .onward _ (low.trans low') high'

end

end DerwLang.Indexed
