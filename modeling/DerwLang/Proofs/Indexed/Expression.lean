/-
**Expressions by index.**

What a cursor reads is what is read from the window that it sees, as long as that holds of what is nested, which weighs less
(`Readers.Agree`). A loop takes one token a round at least, so that no loop outlasts the tokens ahead; and a list literal
outweighs its interior, which is read anew.
-/

import DerwLang.Indexed.Expression
import DerwLang.Proofs.Indexed.Type

namespace DerwLang.Indexed

open Grammar (Nested isListLiteral unquote)

/-! ## Lines -/

/-- The parts that start with a line, the first of which goes on with `own` and, so far, ends with `previous`. -/
theorem lineStarts_eq (column : Nat) (done own : List Token) (previous : Token) (rest after : List Token)
    (enclosed : ∀ token ∈ own ++ previous :: rest, token.Enclosed) :
    ∃ part more starts,
      Window.splitStarts column (lineBefore done (own ++ (previous :: rest ++ after))) previous rest =
        ⟨lineBefore done (own ++ (previous :: rest ++ after)), part⟩ :: more ∧
      lineStarts (done ++ (own ++ (previous :: rest ++ after))) column rest.length (done.length + own.length + 1) = .ok starts ∧
      List.Forall₂ (Sees (done ++ (own ++ (previous :: rest ++ after))) (own ++ previous :: rest))
        (rangesFrom done.length (done.length + own.length + 1 + rest.length) starts)
        (⟨lineBefore done (own ++ (previous :: rest ++ after)), own ++ part⟩ :: more) := by
  induction rest generalizing done own previous with
  | nil =>
    exact ⟨[previous], [], [], rfl, rfl, .cons (sees_through enclosed (List.Sublist.refl _)) .nil⟩
  | cons token rest step =>
    have place : done.length + own.length = (done ++ own).length := by simp
    have whole : done ++ (own ++ (previous :: token :: rest ++ after)) = done ++ own ++ previous :: token :: (rest ++ after) := by
      simp
    rw [whole, List.length_cons, place, lineStarts, startsLine_eq, Checked.ok_bind, item_append_next, Checked.ok_bind,
      Window.splitStarts]
    split
    · obtain ⟨part, more, further, parts, read, sees⟩ := step (done ++ own ++ [previous]) [] token fun other member =>
        enclosed other (by simp_all)
      have line : lineBefore (done ++ own ++ [previous]) ([] ++ (token :: rest ++ after)) = previous.line :=
        lineBefore_push _ _ _
      have same : done ++ own ++ [previous] ++ ([] ++ (token :: rest ++ after)) =
          done ++ own ++ previous :: token :: (rest ++ after) := by simp
      have next : (done ++ own ++ [previous]).length = (done ++ own).length + 1 := List.length_append
      rw [line] at parts sees
      rw [same, next] at read sees
      rw [List.length_nil, Nat.add_zero] at read sees
      refine ⟨[previous], ⟨previous.line, part⟩ :: more, ((done ++ own).length + 1) :: further, by rw [parts], ?_, .cons ?_ ?_⟩
      · rw [read]
        rfl
      · rw [List.length_append, ← whole]
        exact sees_through enclosed (by simp)
      · have stop : (done ++ own).length + 1 + (rest.length + 1) = (done ++ own).length + 1 + 1 + rest.length := by omega
        rw [stop]
        exact sees.imp fun range window sees => sees.mono (by simp)
    · obtain ⟨part, more, starts, parts, read, sees⟩ := step done (own ++ [previous]) token fun other member =>
        enclosed other (by simp_all)
      have same : own ++ [previous] ++ (token :: rest ++ after) = own ++ (previous :: token :: rest ++ after) := by simp
      have next : done.length + (own ++ [previous]).length + 1 = (done ++ own).length + 1 + 1 := by simp [Nat.add_assoc]
      have stop : (done ++ own).length + 1 + (rest.length + 1) = (done ++ own).length + 1 + 1 + rest.length := by omega
      rw [same] at parts read sees
      rw [whole, next] at read sees
      refine ⟨previous :: part, more, starts, by rw [parts]; rfl, ?_, ?_⟩
      · rw [read]
        rfl
      · rw [stop]
        simpa using sees

/-- **The branches are found where the window is split.** -/
theorem branchRanges_eq {cursor : Cursor} {before : Nat} {first : Token} {rest : List Token} (views : cursor.Views ⟨before, first :: rest⟩)
    (column : Nat) :
    ∃ starts, lineStarts cursor.tokens column (cursor.stop - (cursor.index + 1)) (cursor.index + 1) = .ok starts ∧
      List.Forall₂ (Sees cursor.tokens (first :: rest)) (rangesFrom cursor.index cursor.stop starts)
        (Window.splitStarts column before first rest) := by
  obtain ⟨done, after, rfl, before, enclosed⟩ := views
  obtain ⟨part, more, starts, parts, read, sees⟩ := lineStarts_eq column done [] first rest after enclosed
  rw [List.nil_append, ← before] at parts sees
  have stop : (Cursor.around done (first :: rest) after).stop = done.length + 1 + rest.length := by
    show done.length + (rest.length + 1) = _
    omega
  refine ⟨starts, ?_, ?_⟩
  · have count : (Cursor.around done (first :: rest) after).stop - (done.length + 1) = rest.length := by omega
    exact count ▸ read
  · rw [parts, stop]
    exact sees

/-! ## Names -/

theorem reference_eq (name : String) (arguments : List Expression) :
    reference name arguments = .ok (Grammar.reference name arguments) := by
  unfold reference Grammar.reference
  dsimp only
  cases (Text.splitAt '.' name).getLast? with
  | none => cases (Text.splitAt '.' name).dropLast <;> rfl
  | some last =>
    cases (Text.splitAt '.' name).dropLast with
    | nil => rfl
    | cons head path =>
      dsimp only
      by_cases capital : Text.isCapitalised head = true
      · simp [Checked.item, capital]
      · simp [Checked.item, capital]

/-! ## Records and lists -/

/-- What is nested is read by index as its window is, up to a weight. -/
structure Readers.Agree (bound : Nat) (readers : Readers) (nested : Nested) : Prop where
  expression : ∀ {cursor : Cursor} {window : Window}, cursor.Views window → window.weight ≤ bound →
    Agrees Eq (readers.expression cursor) (nested.expression window)
  body : ∀ {cursor : Cursor} {window : Window}, cursor.Views window → window.weight ≤ bound →
    Agrees Eq (readers.body cursor) (nested.body window)

section

variable {bound : Nat} {readers : Readers} {nested : Nested} {cursor : Cursor} {window : Window} {token : Token}
  {tokens rest : List Token} {before : Nat}

theorem agrees_recordField (agree : readers.Agree bound nested) {opening : Nat} {range : Nat × Nat}
    (opener : Checked.item cursor.tokens opening = .ok token) (views : (cursor.between range.1 range.2).Views window)
    (light : window.weight ≤ bound) :
    Agrees Eq (recordField readers cursor opening range) (Grammar.recordField nested token.line window) := by
  have slice : Checked.slice cursor.tokens range.1 range.2 = .ok window.tokens := views.slice
  obtain ⟨before, tokens⟩ := window
  rw [recordField, access_bind slice]
  cases tokens with
  | nil =>
    dsimp only
    rw [access_bind opener]
    exact .blamed _ _
  | cons name rest =>
    cases rest with
    | nil => exact .blamed _ _
    | cons colon value =>
      refine .ite (fun _ => ?_) fun _ => .blamed _ _
      have inner : Window.weight ⟨colon.line, value⟩ ≤ bound :=
        (Window.weight_le_of_sublist ((List.sublist_cons_self _ _).trans (List.sublist_cons_self _ _))).trans light
      refine (agree.expression views.next.next inner).bind ?_
      rintro value _ rfl
      exact .value _

theorem agrees_recordFields (agree : readers.Agree bound nested) {opening : Nat} {ranges : List (Nat × Nat)} {windows : List Window}
    (opener : Checked.item cursor.tokens opening = .ok token) (sees : List.Forall₂ (Sees cursor.tokens tokens) ranges windows)
    (light : Window.weight ⟨before, tokens⟩ ≤ bound) :
    Agrees Eq (recordFields readers cursor opening ranges) (Grammar.recordFields nested token.line windows) := by
  have fields : ∀ {ranges : List (Nat × Nat)} {windows : List Window}, List.Forall₂ (Sees cursor.tokens tokens) ranges windows →
      Agrees Eq (ranges.mapM (recordField readers cursor opening)) (windows.mapM (Grammar.recordField nested token.line)) :=
    fun sees => .mapM (sees.imp fun _ _ one =>
      agrees_recordField agree opener one.1 ((Window.weight_le_of_sublist one.2).trans light))
  cases sees with
  | nil => exact .value _
  | @cons range window ranges windows one others =>
    have slice : Checked.slice cursor.tokens range.1 range.2 = .ok window.tokens := one.1.slice
    rw [recordFields, access_bind slice, Grammar.recordFields]
    have lone : Grammar.loneName? ⟨0, window.tokens⟩ = Grammar.loneName? window := rfl
    rw [lone]
    cases Grammar.loneName? window with
    | some base =>
      refine (fields others).bind ?_
      rintro fields _ rfl
      exact .value _
    | none =>
      refine (fields (.cons one others)).bind ?_
      rintro fields _ rfl
      exact .value _

theorem agrees_recordLiteral (agree : readers.Agree bound nested) (views : cursor.Views ⟨before, token :: rest⟩)
    (opens : token.kind = .openCurly) (light : Window.weight ⟨token.line, rest⟩ ≤ bound) :
    Agrees (Left rest) (recordLiteral readers cursor) (Grammar.recordLiteral nested token rest) := by
  rw [recordLiteral, closing_curly views opens, Grammar.recordLiteral]
  cases found : Token.splitClose .openCurly .closeCurly 0 rest with
  | none => exact .blamed _ _
  | some cut =>
    have whole := Token.splitClose_eq found
    obtain ⟨inside, after⟩ := views.next.cut whole
    have opener : Checked.item cursor.tokens cursor.index = .ok token := views.head
    have among := Cut.after_suffix whole
    have lighter : Window.weight ⟨token.line, cut.inside⟩ ≤ bound :=
      (Window.weight_le_of_sublist (Cut.inside_sublist whole)).trans light
    obtain ⟨ranges, read, sees⟩ := parts_eq (.inl rfl) inside
    dsimp only
    rw [pure_bind]
    cases empty : cut.inside.isEmpty with
    | true =>
      rw [if_neg (by simp_all), if_pos rfl]
      exact .left _ after among
    | false =>
      rw [if_pos (by simp_all [List.length_pos_iff]), if_neg (by simp)]
      have read : parts cursor.tokens (cursor.index + 1) (cursor.index + 1 + cut.inside.length) .comma = .ok ranges := read
      rw [access_bind read]
      refine (agrees_recordFields agree opener sees lighter).bind ?_
      rintro literal _ rfl
      exact .left _ after among

/-- One bound of a range, the tokens of which lie between two indices. -/
theorem agrees_rangeBound {start stop : Nat} {inner : List Token} (slice : Checked.slice tokens start stop = .ok inner) :
    Agrees Eq (rangeBound tokens start stop) (Grammar.rangeBound inner) := by
  rw [rangeBound, access_bind slice]
  match inner with
  | [] => exact .blamed _ _
  | [token] => exact .ite (fun _ => .value _) fun _ => .blamed _ _
  | _ :: _ :: _ => exact .blamed _ _

theorem agrees_listItem (agree : readers.Agree bound nested) (line : Nat) {range : Nat × Nat}
    (views : (cursor.between range.1 range.2).Views window) (light : window.weight ≤ bound) :
    Agrees Eq (listItem readers cursor line range) (Grammar.listItem nested line window) := by
  have size := views.stop
  rw [listItem, Grammar.listItem]
  cases empty : window.tokens.isEmpty with
  | true =>
    rw [if_pos (by simp_all [Cursor.between])]
    exact .blamed _ _
  | false =>
    rw [if_neg (by simp_all [Cursor.between])]
    exact agree.expression views light

/-- The index of a token is where the tokens are cut. -/
theorem findIdx?_eq (kind : Token.Kind) (tokens : List Token) :
    (tokens.findIdx? fun token => token.kind == kind) = (Token.splitKind kind tokens).map fun cut => cut.inside.length := by
  induction tokens with
  | nil => rfl
  | cons token rest step =>
    rw [List.findIdx?_cons, Token.splitKind]
    split
    · rfl
    · rw [step, Option.map_map, Option.map_map]
      rfl

theorem interior_eq (enclosed : token.Enclosed) (isList : isListLiteral token = true) :
    interior token = .ok (unquote token.body) := by
  obtain ⟨stop, minus, chars⟩ := chars_enclosed enclosed isList
  rw [interior, minus, Checked.ok_bind, chars]
  simp only [String.ofList_toList]
  rfl

/-- **A list literal is read by index as it is read from its window.** -/
theorem agrees_listLiteral (agree : readers.Agree bound nested) (enclosed : token.Enclosed) (isList : isListLiteral token = true)
    (light : token.weight ≤ bound + 1) : Agrees Eq (listLiteral readers token) (Grammar.listLiteral nested token) := by
  have lighter : ∀ before, Window.weight ⟨before, Token.significant (DerwLang.tokenizeAt (unquote token.body) token.line
      (token.column + 1))⟩ ≤ bound :=
    fun before => Nat.le_of_lt_succ ((weight_interior token _ _ before).trans_le light)
  have enclosed' := enclosed_tokenizeAt (unquote token.body) token.line (token.column + 1)
  rw [listLiteral, access_bind (interior_eq enclosed isList), access_bind (tokenizeAt_ok _ _ _), Grammar.listLiteral]
  generalize Token.significant (DerwLang.tokenizeAt (unquote token.body) token.line (token.column + 1)) = tokens
    at lighter enclosed' ⊢
  dsimp only
  refine .ite (fun _ => .value _) fun _ => ?_
  rw [findIdx?_eq]
  cases found : Token.splitKind (.operator .range) tokens with
  | some cut =>
    have whole := Token.splitKind_eq found
    have front : Checked.slice tokens 0 cut.inside.length = .ok cut.inside := by
      have slice := slice_append [] cut.inside (cut.token :: cut.after)
      rwa [List.nil_append, List.length_nil, Nat.zero_add, ← Cut.all, whole] at slice
    have back : Checked.slice tokens (cut.inside.length + 1) tokens.length = .ok cut.after := by
      have slice := slice_append (cut.inside ++ [cut.token]) cut.after []
      simpa [← whole, Cut.all, Nat.add_assoc, Nat.add_comm 1] using slice
    refine (agrees_rangeBound front).bind ?_
    rintro first _ rfl
    refine (agrees_rangeBound back).bind ?_
    rintro last _ rfl
    exact .value _
  | none =>
    obtain ⟨ranges, read, sees⟩ := parts_eq (.inl rfl) (Cursor.views_start enclosed')
    have read : parts tokens 0 tokens.length .comma = .ok ranges := read
    dsimp only [Option.map_none]
    rw [access_bind read]
    refine Agrees.bind_by Eq (.mapM (sees.imp fun range window one => ?_)) ?_
    · exact agrees_listItem agree token.line one.1 ((Window.weight_le_of_sublist one.2).trans (lighter 0))
    · rintro items _ rfl
      exact .value _

/-! ## Atoms -/

theorem agrees_atom (agree : readers.Agree bound nested) (views : cursor.Views window) (light : window.weight ≤ bound + 1) :
    Agrees (Left window.tokens.tail) (atom readers cursor) (Grammar.atom nested window) := by
  obtain ⟨before, tokens⟩ := window
  rw [atom, views.peek]
  cases tokens with
  | nil => exact views.refuse _
  | cons token rest =>
    have after := views.next
    have enclosed := views.enclosed token List.mem_cons_self
    have opening : Checked.minus cursor.next.index 1 = .ok cursor.index := Checked.minus_one _
    dsimp only [Grammar.atom, List.head?_cons, List.tail_cons]
    cases kind : token.kind with
    | literal =>
      refine .ite (fun isList => ?_) fun _ => .left _ after (List.suffix_refl _)
      have own : token.weight ≤ bound + 1 := (Nat.le_add_right _ _).trans light
      refine (agrees_listLiteral agree enclosed isList own).bind ?_
      rintro items _ rfl
      exact .left _ after (List.suffix_refl _)
    | string | formatString => exact .left _ after (List.suffix_refl _)
    | openBracket =>
      dsimp only
      rw [access_bind opening]
      have close : closing cursor.next cursor.index = _ := closing_round views kind
      rw [close]
      cases found : Token.splitClose .openBracket .closeBracket 0 rest with
      | none => exact .blamed _ _
      | some cut =>
        have whole := Token.splitClose_eq found
        obtain ⟨inside, left⟩ := after.cut whole
        have among := Cut.after_suffix whole
        have lighter : Window.weight ⟨token.line, cut.inside⟩ ≤ bound :=
          Window.light_of_sublist light (Cut.inside_sublist whole)
        dsimp only
        rw [pure_bind]
        refine (agree.expression inside lighter).bind ?_
        rintro inner _ rfl
        exact .left _ left among
    | openCurly =>
      dsimp only
      rw [access_bind opening]
      refine Agrees.bind_by (Left rest) (agrees_recordLiteral agree views kind (Window.light_of_sublist light (List.Sublist.refl _))) ?_
      rintro ⟨literal, ending⟩ ⟨_, ending'⟩ ⟨rfl, left, among⟩
      exact .left _ left among
    | identifier =>
      dsimp only
      rw [after.nextKind, access_bind (reference_eq _ _)]
      cases rest with
      | nil =>
        rw [if_neg (by simp [Window.nextKind])]
        exact .left _ after (List.suffix_refl _)
      | cons next more =>
        refine .ite (fun opens => ?_) fun _ => .left _ after (List.suffix_refl _)
        have curly : next.kind = .openCurly := by simpa [Window.nextKind] using (Bool.and_eq_true_iff.mp opens).2
        have lighter : Window.weight ⟨next.line, more⟩ ≤ bound :=
          Window.light_of_sublist light (List.sublist_cons_self _ _)
        refine (agrees_recordLiteral agree after curly lighter).bind ?_
        rintro ⟨literal, ending⟩ ⟨_, ending'⟩ ⟨rfl, left, among⟩
        exact .left _ left (among.trans (List.suffix_cons _ _))
    | operator sign =>
      cases sign with
      | minus =>
        dsimp only
        rw [after.peek]
        cases rest with
        | nil => exact .blamed _ _
        | cons number more =>
          dsimp only [List.head?_cons]
          cases Grammar.negatedNumber? token number with
          | none => exact .blamed _ _
          | some text => exact .left _ after.next (List.suffix_cons _ _)
      | _ => exact .blamed _ _
    | _ => exact .blamed _ _

/-! ## Operands -/

theorem agrees_arguments (agree : readers.Agree bound nested) {round : Nat} (views : cursor.Views window)
    (light : window.weight ≤ bound) (long : window.tokens.length < round) :
    Agrees (Left window.tokens) (arguments readers round cursor) (Grammar.arguments nested window) := by
  induction round generalizing cursor window with
  | zero => simp at long
  | succ round step =>
    obtain ⟨before, tokens⟩ := window
    rw [arguments, views.nextKind, Grammar.arguments_eq]
    cases tokens with
    | nil => exact .left _ views (List.suffix_refl _)
    | cons token rest =>
      refine .ite (fun _ => ?_) fun _ => .left _ views (List.suffix_refl _)
      refine (agrees_atom agree views (Nat.le_succ_of_le light)).bind ?_
      rintro ⟨first, ending⟩ ⟨_, ending'⟩ ⟨rfl, left, among⟩
      have among : ending'.tokens <:+ rest := among
      have lighter : ending'.weight ≤ bound :=
        (Window.weight_le_of_sublist (among.sublist.trans (List.sublist_cons_self _ _))).trans light
      refine (step left lighter (among.length_le.trans_lt (Nat.lt_of_succ_lt_succ long))).bind ?_
      rintro ⟨others, final⟩ ⟨_, final'⟩ ⟨rfl, left, among'⟩
      exact .left _ left ((among'.trans among).trans (List.suffix_cons _ _))

theorem agrees_conditional (agree : readers.Agree bound nested) (views : cursor.Views window) (light : window.weight ≤ bound) :
    Agrees Eq (conditional readers cursor) (Grammar.conditional nested window) := by
  rw [conditional, access_bind (findKeyword_eq views _ _ _), Grammar.conditional]
  dsimp only [Option.getD_some]
  cases found : Token.splitKeyword .thenWord .ifWord .elseWord 0 window.tokens with
  | none => exact views.refuse _
  | some predicate =>
    have whole := Token.splitKeyword_eq found
    obtain ⟨inside, after⟩ := views.cut whole
    have second : findKeyword cursor (cursor.index + predicate.inside.length + 1) .elseWord .ifWord none =
        .ok ((Token.splitKeyword .elseWord .ifWord .elseWord 0 predicate.after).map fun cut =>
          cursor.index + predicate.inside.length + 1 + cut.inside.length) := findKeyword_eq after .elseWord .ifWord none
    dsimp only [Option.map_some]
    rw [access_bind second]
    cases found' : Token.splitKeyword .elseWord .ifWord .elseWord 0 predicate.after with
    | none => exact views.refuse _
    | some yes =>
      have whole' := Token.splitKeyword_eq found'
      obtain ⟨inside', after'⟩ := after.cut whole'
      have lighter : ∀ {before : Nat} {inner : List Token}, inner.Sublist window.tokens → Window.weight ⟨before, inner⟩ ≤ bound :=
        fun among => (Window.weight_le_of_sublist among).trans light
      have rest := (Cut.after_suffix whole).sublist
      refine (agree.expression inside (lighter (Cut.inside_sublist whole))).bind ?_
      rintro test _ rfl
      refine (agree.body inside' (lighter ((Cut.inside_sublist whole').trans rest))).bind ?_
      rintro whenTrue _ rfl
      refine (agree.body after' (lighter ((Cut.after_suffix whole').sublist.trans rest))).bind ?_
      rintro whenFalse _ rfl
      exact .value _

theorem agrees_branch (agree : readers.Agree bound nested) (views : cursor.Views window) (light : window.weight ≤ bound) :
    Agrees Eq (branch readers cursor) (Grammar.branch nested window) := by
  rw [branch, access_bind (findKind_eq views _), Grammar.branch]
  cases found : Token.splitKind .arrow window.tokens with
  | none =>
    dsimp only [Option.map_none]
    rw [views.found]
    exact views.refuse _
  | some cut =>
    have whole := Token.splitKind_eq found
    obtain ⟨inside, after⟩ := views.cut whole
    have lighter : Window.weight ⟨cut.token.line, cut.after⟩ ≤ bound :=
      (Window.weight_le_of_sublist (Cut.after_suffix whole).sublist).trans light
    refine (agrees_pattern inside).bind ?_
    rintro pattern _ rfl
    refine (agree.body after lighter).bind ?_
    rintro body _ rfl
    exact .value _

theorem agrees_branches (agree : readers.Agree bound nested) (views : cursor.Views window) (light : window.weight ≤ bound) :
    Agrees Eq (branches readers cursor) (Grammar.branches nested window) := by
  obtain ⟨before, tokens⟩ := window
  have stop := views.stop
  rw [branches]
  cases tokens with
  | nil =>
    have finished : cursor.stop ≤ cursor.index := Nat.le_of_eq stop
    rw [if_pos finished]
    exact views.refuse _
  | cons first rest =>
    have item : Checked.item cursor.tokens cursor.index = .ok first := views.head
    obtain ⟨starts, read, sees⟩ := branchRanges_eq views first.column
    rw [if_neg (by rw [stop, List.length_cons]; omega), access_bind item, access_bind read]
    exact .mapM (sees.imp fun range window one =>
      agrees_branch agree one.1 ((Window.weight_le_of_sublist one.2).trans light))

theorem agrees_caseOf (agree : readers.Agree bound nested) (views : cursor.Views window) (light : window.weight ≤ bound) :
    Agrees Eq (caseOf readers cursor) (Grammar.caseOf nested window) := by
  rw [caseOf, access_bind (findKeyword_eq views _ _ _), Grammar.caseOf]
  dsimp only [Option.getD_none]
  cases found : Token.splitKeyword .ofWord .caseWord .ofWord 0 window.tokens with
  | none => exact views.refuse _
  | some cut =>
    have whole := Token.splitKeyword_eq found
    obtain ⟨inside, after⟩ := views.cut whole
    have lighter : Window.weight ⟨window.before, cut.inside⟩ ≤ bound :=
      (Window.weight_le_of_sublist (Cut.inside_sublist whole)).trans light
    have lighter' : Window.weight ⟨cut.token.line, cut.after⟩ ≤ bound :=
      (Window.weight_le_of_sublist (Cut.after_suffix whole).sublist).trans light
    refine (agree.expression inside lighter).bind ?_
    rintro predicate _ rfl
    refine (agrees_branches agree after lighter').bind ?_
    rintro branches _ rfl
    exact .value _

theorem agrees_lambda (agree : readers.Agree bound nested) (views : cursor.Views window) (light : window.weight ≤ bound) :
    Agrees Eq (lambda readers cursor) (Grammar.lambda nested window) := by
  obtain ⟨ending, read, left, among⟩ := takeNames_eq views
  rw [lambda, read, pure_bind, Grammar.lambda]
  generalize window.takeNames = taken at left among ⊢
  obtain ⟨names, rest⟩ := taken
  cases names with
  | nil =>
    dsimp only [List.isEmpty_nil]
    rw [if_pos rfl, left.found]
    exact left.refuse _
  | cons name names =>
    dsimp only [List.isEmpty_cons]
    rw [if_neg (by simp)]
    refine (agrees_expect left .arrow .afterLambdaArguments).bind ?_
    rintro ⟨arrow, further⟩ ⟨_, further'⟩ ⟨rfl, left', among'⟩
    have lighter : further'.weight ≤ bound :=
      (Window.weight_le_of_sublist ((among'.sublist.trans (List.tail_sublist _)).trans among.sublist)).trans light
    refine (agree.expression left' lighter).bind ?_
    rintro body _ rfl
    exact .value _

theorem agrees_operand (agree : readers.Agree bound nested) (views : cursor.Views window) (light : window.weight ≤ bound + 1) :
    Agrees (Left window.tokens.tail) (operand readers cursor) (Grammar.operand nested window) := by
  have atom := agrees_atom agree views light
  have finished := views.finished
  obtain ⟨before, tokens⟩ := window
  rw [operand, views.peek]
  cases tokens with
  | nil => exact views.refuse _
  | cons token rest =>
    have after := views.next
    have lighter : Window.weight ⟨token.line, rest⟩ ≤ bound := Window.light_of_sublist light (List.Sublist.refl _)
    have whole (value : Expression) : Agrees (Left rest) (pure (value, cursor.moved cursor.stop))
        (.ok (value, Window.finished ⟨before, token :: rest⟩)) := .left _ finished List.nil_suffix
    dsimp only [Grammar.operand, List.head?_cons]
    cases token.kind with
    | keyword word =>
      cases word with
      | ifWord =>
        refine (agrees_conditional agree after lighter).bind ?_
        rintro value _ rfl
        exact whole _
      | caseWord =>
        refine (agrees_caseOf agree after lighter).bind ?_
        rintro value _ rfl
        exact whole _
      | _ => exact atom
    | backslash =>
      refine (agrees_lambda agree after lighter).bind ?_
      rintro value _ rfl
      exact whole _
    | identifier =>
      refine .ite (fun _ => atom) fun _ => ?_
      refine (agrees_arguments agree after lighter after.rounds).bind ?_
      rintro ⟨arguments, ending⟩ ⟨_, ending'⟩ ⟨rfl, left, among⟩
      dsimp only
      rw [access_bind (reference_eq _ _)]
      exact .left _ left among
    | _ => exact atom

/-! ## Chains -/

theorem agrees_links (agree : readers.Agree bound nested) {round : Nat} (comparing : Comparing) (views : cursor.Views window)
    (light : window.weight ≤ bound + 1) (long : window.tokens.length < round) :
    Agrees (Left window.tokens) (links readers round comparing cursor) (Grammar.links nested comparing window) := by
  induction round generalizing comparing cursor window with
  | zero => simp at long
  | succ round step =>
    obtain ⟨before, tokens⟩ := window
    rw [links, views.peek, Grammar.links_eq]
    cases tokens with
    | nil => exact .left _ views (List.suffix_refl _)
    | cons token rest =>
      dsimp only [List.head?_cons]
      cases BinaryOperator.ofKind? token.kind with
      | none => exact .left _ views (List.suffix_refl _)
      | some operator =>
        dsimp only
        cases comparing.chainedWith operator with
        | some first => exact views.refuse _
        | none =>
          have lighter : Window.weight ⟨token.line, rest⟩ ≤ bound + 1 :=
            (Window.weight_le_of_sublist (List.sublist_cons_self _ _)).trans light
          refine (agrees_operand agree views.next lighter).bind ?_
          rintro ⟨operand, ending⟩ ⟨_, ending'⟩ ⟨rfl, left, among⟩
          have among : ending'.tokens <:+ rest := among.trans (List.tail_suffix _)
          have lighter' : ending'.weight ≤ bound + 1 := (Window.weight_le_of_sublist among.sublist).trans lighter
          refine (step (comparing.after operator) left lighter'
            (among.length_le.trans_lt (Nat.lt_of_succ_lt_succ long))).bind ?_
          rintro ⟨others, final⟩ ⟨_, final'⟩ ⟨rfl, left, among'⟩
          exact .left _ left ((among'.trans among).trans (List.suffix_cons _ _))

theorem agrees_expressionStep (agree : readers.Agree bound nested) (views : cursor.Views window) (light : window.weight ≤ bound + 1) :
    Agrees Eq (expressionStep readers cursor) (Grammar.expressionStep nested window) := by
  rw [expressionStep, chain, bind_assoc]
  refine (agrees_operand agree views light).bind ?_
  rintro ⟨first, ending⟩ ⟨_, ending'⟩ ⟨rfl, left, among⟩
  have lighter : ending'.weight ≤ bound + 1 :=
    (Window.weight_le_of_sublist (among.sublist.trans (List.tail_sublist _))).trans light
  dsimp only
  rw [bind_assoc]
  refine (agrees_links agree none left lighter left.rounds).bind ?_
  rintro ⟨links, final⟩ ⟨_, final'⟩ ⟨rfl, left, -⟩
  rw [pure_bind]
  refine (agrees_expectEnd left .expression).bind ?_
  rintro _ _ -
  exact .value _

end

end DerwLang.Indexed
