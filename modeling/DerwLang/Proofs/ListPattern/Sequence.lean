/-
**Later parts, part by part.**

The statements of `sequential` from the second part on do what matching does (`continues_sequential`), by induction on
the parts: a part that takes one element goes on with what is left after it, and a gap with what is left after the
element found. From this the statements of a whole pattern that is taken apart part by part follow
(`run_sequential`).
-/

import DerwLang.Proofs.ListPattern.Peeling

namespace DerwLang.Ecma

section Sequence

variable {reading : Reading} {names : List String} {outer : Scope} {body : List Statement}

/-! ## One part behind the guard for the empty list -/

/-- One element is taken off the list when it has one. -/
theorem run_peel {index : Nat} {list : String} {part : ListPart} {isLast : Bool} {items : List Value}
    {next : List Statement} {scope : Scope} {result : Option (List (String × Value))}
    (held : scope list = some (.list items)) (empty : items = [] → result = none)
    (taken : ∀ item more, items = item :: more →
      (declaredNames (peeled (index + 1) list part isLast next)).Nodup ∧
        Ends scope body
          ((Statement.runEach reading (scope.hide (declaredNames (peeled (index + 1) list part isLast next)))
            (peeled (index + 1) list part isLast next)).leaving scope) result) :
    Ends scope body (Statement.runEach reading scope (peel (index + 1) list part isLast next)) result := by
  rw [peel_succ]
  cases items with
  | nil =>
    rw [runEach_guarded_false (by simp [Condition.holds?, Scope.items?, held, Value.items?]), empty rfl]
    exact ⟨scope, rfl⟩
  | cons item more =>
    obtain ⟨distinct, ends⟩ := taken item more rfl
    rw [runEach_guarded_true (by simp [Condition.holds?, Scope.items?, held, Value.items?]) distinct]
    exact ends

/-- What the matching of a part that takes one element comes to. -/
theorem matchLater_anchor {part : ListPart} {anchor : Anchor} (anchored : anchor? part = some anchor)
    (rest : List ListPart) (item : Value) (more : List Value) :
    matchLater reading outer (part :: rest) (item :: more) =
      if anchor.fits reading outer item then
        (matchLater reading outer rest more).map (partValues item part ++ ·)
      else none := by
  cases part <;> simp [anchor?] at anchored <;> subst anchored <;> rfl

theorem matchLater_anchor_nil {part : ListPart} {anchor : Anchor} (anchored : anchor? part = some anchor)
    (rest : List ListPart) : matchLater reading outer (part :: rest) [] = none := by
  cases part <;> simp [anchor?] at anchored <;> rfl

/-- What the matching of a gap before a tag or a text comes to. -/
theorem matchLater_gap {gap : String} {part : ListPart} {anchor : Anchor}
    (anchored : anchor? part = some anchor) (rest : List ListPart) (items : List Value) :
    matchLater reading outer (.name gap :: part :: rest) items =
      (cutAtFirst (anchor.fits reading outer) items).bind fun cut =>
        (matchLater reading outer rest cut.2.2).map (((gap, .list cut.1) :: partValues cut.2.1 part) ++ ·) := by
  simp only [matchLater, fitTest?_eq, anchored, Option.map_some]
  cases cutAtFirst (anchor.fits reading outer) items <;> rfl

/-- What the matching of a name before another name or `[]` comes to. -/
theorem matchLater_single {name : String} {part : ListPart} (plain : anchor? part = none)
    (rest : List ListPart) (item : Value) (more : List Value) :
    matchLater reading outer (.name name :: part :: rest) (item :: more) =
      (matchLater reading outer (part :: rest) more).map (partValues item (.name name) ++ ·) := by
  rw [matchLater, fitTest?_eq, plain]
  rfl

theorem matchLater_single_nil {name : String} {part : ListPart} (plain : anchor? part = none)
    (rest : List ListPart) : matchLater reading outer (.name name :: part :: rest) [] = none := by
  rw [matchLater, fitTest?_eq, plain]
  rfl

/-! ## All parts that are left -/

/-- The statements for the parts from an index on, by the kind of the first two. -/
theorem sequential_nil (index : Nat) (list : String) : sequential index list body [] = body := rfl

theorem sequential_name (index : Nat) (list name : String) :
    sequential index list body [.name name] = .bindName name list :: body := rfl

theorem sequential_emptyList (index : Nat) (list : String) (rest : List ListPart) :
    sequential index list body (.emptyList :: rest) = [.guarded (.lengthIs list 0) body] := rfl

theorem sequential_anchor (index : Nat) (list : String) {part : ListPart} (anchored : (anchor? part).isSome)
    (rest : List ListPart) :
    sequential index list body (part :: rest) =
      peel index list part rest.isEmpty (sequential (index + 1) (restName index) body rest) := by
  cases part <;> simp [anchor?] at anchored <;> rfl

theorem sequential_gap (index : Nat) (gap list : String) {part : ListPart} {anchor : Anchor}
    (anchored : anchor? part = some anchor) (rest : List ListPart) :
    sequential (index + 1) list body (.name gap :: part :: rest) =
      gapSearch (index + 2) gap list part anchor rest.isEmpty
        (sequential (index + 3) (restName (index + 2)) body rest) := by
  rw [sequential]
  exact anchored

theorem sequential_single (index : Nat) (name list : String) {part : ListPart} (plain : anchor? part = none)
    (rest : List ListPart) :
    sequential index list body (.name name :: part :: rest) =
      peel index list (.name name) false
        (sequential (index + 1) (restName index) body (part :: rest)) := by
  rw [sequential]
  rintro _ anchor - anchored
  simp [plain] at anchored

/-- A tag or a text in front of the parts that are left. -/
theorem continues_anchor {part : ListPart} {rest : List ListPart} {index : Nat} {items : List Value}
    (proper : Proper reading names (part :: rest)) {anchor : Anchor} (anchored : anchor? part = some anchor)
    (elements : ∀ item ∈ items, item.Answers)
    (follows : ∀ more, (∀ item ∈ more, item.Answers) →
      Continues reading names outer body (index + 1) rest more
        (sequential (index + 2) (restName (index + 1)) body rest)) :
    Continues reading names outer body index (part :: rest) items
      (sequential (index + 1) (restName index) body (part :: rest)) := by
  have anchored' : (anchor? part).isSome := by rw [anchored]; rfl
  rw [sequential_anchor _ _ anchored']
  refine ⟨fun inner held same => ?_, by simp [peel_succ, declaredNames, Statement.declares],
    by simp [peel_succ, declaredNames, Statement.declares]⟩
  refine run_peel (held (by simp)) (fun empty => by rw [empty, matchLater_anchor_nil anchored]) ?_
  rintro item more rfl
  rw [matchLater_anchor anchored]
  refine run_peeled_anchor proper anchored (elements item List.mem_cons_self)
    (follows more fun other member => elements other (List.mem_cons_of_mem _ member)) (held (by simp)) ?_ same
  rw [declaredNames_peeled_anchor anchored', restName_eq, List.mem_cons, not_or]
  refine ⟨by simp [madeName_inj], fun member => ?_⟩
  simpa [restName_eq, madeName_inj] using mem_restOf member

/-- With no part left the body is reached. -/
theorem continues_nil (work : ∀ statement ∈ body, statement.isWork) (some_ : body ≠ []) (index : Nat)
    (items : List Value) :
    Continues reading names outer body index [] items (sequential (index + 1) (restName index) body []) := by
  have none_ := declaredNames_body work
  rw [sequential_nil]
  refine ⟨fun inner _ _ => ?_, by simp [none_], by simp [none_]⟩
  rw [runEach_body work some_]
  exact ⟨inner, rfl, fun _ _ => rfl⟩

/-- A name as the last part takes what is left. -/
theorem continues_name (work : ∀ statement ∈ body, statement.isWork) (some_ : body ≠ []) (name : String)
    (index : Nat) (items : List Value) :
    Continues reading names outer body index [.name name] items
      (sequential (index + 1) (restName index) body [.name name]) := by
  have declared : declaredNames (.bindName name (restName index) :: body) = [name] := by
    have none_ := declaredNames_body work
    simp only [declaredNames] at none_ ⊢
    simp [Statement.declares, none_]
  rw [sequential_name]
  refine ⟨fun inner held _ => ?_, by simp [declared], by simp [declared]⟩
  have bound : Statement.bindings? reading inner (.bindName name (restName index)) =
      some [(name, .list items)] := by
    simp [Statement.bindings?, held (by simp)]
  rw [runEach_cons bound, runEach_body work some_]
  exact ⟨_, rfl, fun other _ => rfl⟩

/-- `[]` as the last part asks that nothing is left. -/
theorem continues_emptyList (work : ∀ statement ∈ body, statement.isWork) (some_ : body ≠ []) (index : Nat)
    (items : List Value) :
    Continues reading names outer body index [.emptyList] items
      (sequential (index + 1) (restName index) body [.emptyList]) := by
  rw [sequential_emptyList]
  refine ⟨fun inner held _ => ?_, by simp [declaredNames, Statement.declares], by simp [declaredNames, Statement.declares]⟩
  have list := held (by simp)
  cases items with
  | nil =>
    rw [runEach_guarded_true (by simp [Condition.holds?, Scope.items?, list, Value.items?])
      (by simp [declaredNames_body work]), declaredNames_body work, Scope.hide_nil, runEach_body work some_]
    exact ⟨inner, rfl, fun _ _ => rfl⟩
  | cons item more =>
    rw [runEach_guarded_false (by simp [Condition.holds?, Scope.items?, list, Value.items?])]
    exact ⟨inner, rfl⟩

/-- A gap and the part that ends it, in front of the parts that are left. -/
theorem continues_gap {gap : String} {part : ListPart} {rest : List ListPart} {index : Nat} {items : List Value}
    (proper : Proper reading names (.name gap :: part :: rest)) {anchor : Anchor}
    (anchored : anchor? part = some anchor) (elements : ∀ item ∈ items, item.Answers)
    (follows : ∀ after, (∀ item ∈ after, item.Answers) →
      Continues reading names outer body (index + 2) rest after
        (sequential (index + 3) (restName (index + 2)) body rest)) :
    Continues reading names outer body index (.name gap :: part :: rest) items
      (sequential (index + 1) (restName index) body (.name gap :: part :: rest)) := by
  rw [sequential_gap index gap _ anchored rest]
  have declared : declaredNames (gapSearch (index + 2) gap (restName index) part anchor rest.isEmpty
      (sequential (index + 3) (restName (index + 2)) body rest)) = [foundName (index + 2)] := by
    rw [gapSearch_eq]
    rfl
  refine ⟨fun inner held same => ?_, fun other member => ?_, by simp [declared]⟩
  · rw [matchLater_gap anchored]
    exact run_gap proper anchored elements follows (by omega) (held (by simp)) same
  · rw [declared, List.mem_singleton] at member
    exact .inr ⟨index + 2, by omega, member⟩

/-- A name that takes one element, in front of a name or `[]`. -/
theorem continues_single {name : String} {part : ListPart} {rest : List ListPart} {index : Nat}
    {items : List Value} (proper : Proper reading names (.name name :: part :: rest))
    (plain : anchor? part = none) (elements : ∀ item ∈ items, item.Answers)
    (follows : ∀ more, (∀ item ∈ more, item.Answers) →
      Continues reading names outer body (index + 1) (part :: rest) more
        (sequential (index + 2) (restName (index + 1)) body (part :: rest))) :
    Continues reading names outer body index (.name name :: part :: rest) items
      (sequential (index + 1) (restName index) body (.name name :: part :: rest)) := by
  rw [sequential_single (index + 1) name _ plain rest]
  refine ⟨fun inner held same => ?_, by simp [peel_succ, declaredNames, Statement.declares],
    by simp [peel_succ, declaredNames, Statement.declares]⟩
  have apart : restName index ∉ declaredNames (peeled (index + 1) (restName index) (.name name) false
      (sequential (index + 2) (restName (index + 1)) body (part :: rest))) := by
    intro member
    rcases List.mem_cons.mp member with equal | member
    · exact proper.unmade name (by simp) ⟨.rest, index, equal.symm⟩
    · rcases List.mem_cons.mp member with equal | later
      · simp [restName_eq, madeName_inj] at equal
      · exact (follows [] (by simp)).fresh_of_made proper.tail .rest (by simp) later
  refine run_peel (held (by simp)) (fun empty => by rw [empty, matchLater_single_nil plain]) ?_
  rintro item more rfl
  rw [matchLater_single plain]
  exact run_peeled_name proper (follows more fun other member => elements other (List.mem_cons_of_mem _ member))
    (held (by simp)) apart same

/-- **The statements for later parts do what matching does**, given a body that is reached at its first statement. -/
theorem continues_sequential (work : ∀ statement ∈ body, statement.isWork) (some_ : body ≠ []) :
    ∀ (parts : List ListPart) (index : Nat) (items : List Value), Proper reading names parts →
      (∀ item ∈ items, item.Answers) →
      Continues reading names outer body index parts items
        (sequential (index + 1) (restName index) body parts)
  | [], index, items, _, _ => continues_nil work some_ index items
  | [.name name], index, items, _, _ => continues_name work some_ name index items
  | .emptyList :: rest, index, items, proper, _ => by
    obtain rfl : rest = [] := proper.closed.1 rfl
    exact continues_emptyList work some_ index items
  | .name name :: part :: rest, index, items, proper, elements => by
    cases anchored : anchor? part with
    | some anchor =>
      exact continues_gap proper anchored elements
        fun after => continues_sequential work some_ rest (index + 2) after proper.tail.tail
    | none =>
      exact continues_single proper anchored elements
        fun more => continues_sequential work some_ (part :: rest) (index + 1) more proper.tail
  | .tag pattern :: rest, index, _, proper, elements =>
    continues_anchor proper rfl elements
      fun more => continues_sequential work some_ rest (index + 1) more proper.tail
  | .string text :: rest, index, _, proper, elements =>
    continues_anchor proper rfl elements
      fun more => continues_sequential work some_ rest (index + 1) more proper.tail
  | .formatString text :: rest, index, _, proper, elements =>
    continues_anchor proper rfl elements
      fun more => continues_sequential work some_ rest (index + 1) more proper.tail
termination_by parts => parts.length

/-! ## A whole pattern -/

/-- The first part is taken off the list without a guard for the empty list. -/
theorem sequential_zero (list : String) {part next : ListPart} {rest : List ListPart}
    (shown : part ≠ .emptyList) :
    sequential 0 list body (part :: next :: rest) =
      peeled 0 list part false (sequential 1 (restName 0) body (next :: rest)) := by
  cases part <;> rw [sequential] <;> simp_all [peel_zero]

/-- **A pattern that is taken apart part by part**, given a list that has an element. -/
theorem run_sequential (work : ∀ statement ∈ body, statement.isWork) (some_ : body ≠ [])
    {part next : ListPart} {rest : List ListPart} {scope : Scope} {list : String} {item : Value}
    {more : List Value} (proper : Proper reading names (part :: next :: rest))
    (elements : ∀ value ∈ item :: more, value.Answers) (held : scope list = some (.list (item :: more)))
    (unhidden : list ∉ declaredNames (sequential 0 list body (part :: next :: rest))) :
    (declaredNames (sequential 0 list body (part :: next :: rest))).Nodup ∧
      Ends scope body
        ((Statement.runEach reading (scope.hide (declaredNames (sequential 0 list body (part :: next :: rest))))
          (sequential 0 list body (part :: next :: rest))).leaving scope)
        (matchParts reading scope (part :: next :: rest) (item :: more)) := by
  have same : SameOutside names scope scope := fun _ _ _ => rfl
  have shown : part ≠ .emptyList := fun equal => absurd (proper.closed.1 equal) (by simp)
  have follows : Continues reading names scope body 0 (next :: rest) more
      (sequential 1 (restName 0) body (next :: rest)) :=
    continues_sequential work some_ (next :: rest) 0 more proper.tail fun value member =>
      elements value (List.mem_cons_of_mem _ member)
  rw [sequential_zero list shown] at unhidden ⊢
  cases anchored : anchor? part with
  | some anchor =>
    have matched : matchParts reading scope (part :: next :: rest) (item :: more) =
        matchLater reading scope (part :: next :: rest) (item :: more) := by
      cases part <;> simp [anchor?] at anchored <;> rfl
    rw [matched, matchLater_anchor anchored]
    exact run_peeled_anchor proper anchored (elements item List.mem_cons_self) follows held unhidden same
  | none =>
    cases part <;> simp only [anchor?, reduceCtorEq] at anchored
    case name name => exact run_peeled_name proper follows held unhidden same
    case emptyList => exact absurd rfl shown

end Sequence

end DerwLang.Ecma
