/-
**Parts that are taken off the front of a list.**

Each statement of a list pattern does its part of the matching, given that what comes after it does the rest
(`Continues`):

* `run_peeled_name`, `run_peeled_anchor`: the block that takes one element;
* `run_gap`: the search for the element behind a gap.

In each of them the body is reached exactly when the parts match, and the variables are then those of the matching,
the names that lowering makes aside (`Extended`). Blocks declare names before they bind them; a scope that hides a
name which is bound later on is therefore as good as one that does not.
-/

import DerwLang.Proofs.ListPattern.MadeNames
import DerwLang.Proofs.ListPattern.Matching

namespace DerwLang.Ecma

/-! ## Scopes -/

theorem Scope.bindAll_nil (scope : Scope) : scope.bindAll [] = scope := rfl

theorem Scope.bindAll_apply (bindings : List (String × Value)) (scope : Scope) (name : String) :
    scope.bindAll bindings name = (bindings.lookup name).or (scope name) := rfl

theorem Scope.hide_of_not_mem {names : List String} {name : String} (open_ : name ∉ names) (scope : Scope) :
    scope.hide names name = scope name := if_neg open_

theorem Scope.hide_nil (scope : Scope) : scope.hide [] = scope := rfl

/-- A name without a binding is looked up in vain. -/
theorem lookup_eq_none_of_not_mem {bindings : List (String × Value)} {name : String}
    (absent : name ∉ bindings.map Prod.fst) : bindings.lookup name = none := by
  rw [List.lookup_eq_none_iff]
  intro binding member
  rw [bne_iff_ne]
  rintro rfl
  exact absent (List.mem_map_of_mem member)

/-- A name with a binding is found. -/
theorem lookup_ne_none_of_mem {bindings : List (String × Value)} {name : String}
    (bound : name ∈ bindings.map Prod.fst) : ∃ value, bindings.lookup name = some value := by
  rw [← Option.ne_none_iff_exists']
  intro missing
  obtain ⟨binding, member, rfl⟩ := List.mem_map.mp bound
  exact absurd (List.lookup_eq_none_iff.mp missing binding member) (by simp)

/-- Outside the names given and the made ones, two scopes are the same. -/
def SameOutside (names : List String) (first second : Scope) : Prop :=
  ∀ name, name ∉ names → ¬ IsMade name → first name = second name

/-- The scope after some bindings, made names aside. -/
def Extended (before : Scope) (bindings : List (String × Value)) (after : Scope) : Prop :=
  ∀ name, ¬ IsMade name → after name = (bindings.lookup name).or (before name)

/-- The run gets past the statements when nothing matched, and else reaches the body with the bindings. -/
def Ends (before : Scope) (body : List Statement) (outcome : Outcome) :
    Option (List (String × Value)) → Prop
  | none => ∃ after, outcome = .passed after
  | some bindings => ∃ after, outcome = .reached after body ∧ Extended before bindings after

/-- **Bindings made in a block, seen from outside of it.** Each hidden name is bound in the block or made. -/
theorem Extended.of_block {before after : Scope} {hidden : List String}
    {bound shown inner : List (String × Value)}
    (extended : Extended ((before.hide hidden).bindAll bound) inner after)
    (same : ∀ name, ¬ IsMade name → bound.lookup name = shown.lookup name)
    (covered : ∀ name ∈ hidden, ¬ IsMade name → name ∈ (shown ++ inner).map Prod.fst)
    (distinct : ((shown ++ inner).map Prod.fst).Nodup) : Extended before (shown ++ inner) after := by
  intro name notMade
  rw [extended name notMade, Scope.bindAll_apply, same name notMade, List.lookup_append]
  by_cases shownName : name ∈ shown.map Prod.fst
  · have notInner : name ∉ inner.map Prod.fst := by
      rw [List.map_append, List.nodup_append] at distinct
      exact fun member => distinct.2.2 name shownName name member rfl
    obtain ⟨value, found⟩ := lookup_ne_none_of_mem shownName
    simp [lookup_eq_none_of_not_mem notInner, found]
  · rw [lookup_eq_none_of_not_mem shownName]
    by_cases innerName : name ∈ inner.map Prod.fst
    · obtain ⟨value, found⟩ := lookup_ne_none_of_mem innerName
      simp [found]
    · have notHidden : name ∉ hidden := fun member => by
        have := covered name member notMade
        rw [List.map_append, List.mem_append] at this
        exact this.elim shownName innerName
      simp [lookup_eq_none_of_not_mem innerName, Scope.hide_of_not_mem notHidden]

/-! ## Running -/

section Running

variable {reading : Reading} {scope : Scope}

/-- A statement that binds is run, and then the others. -/
theorem runEach_cons {statement : Statement} {bindings : List (String × Value)}
    (bound : statement.bindings? reading scope = some bindings) (rest : List Statement) :
    Statement.runEach reading scope (statement :: rest) =
      Statement.runEach reading (scope.bindAll bindings) rest := by
  have notWork : statement.isWork = false := by
    cases statement <;> simp_all [Statement.bindings?, Statement.isWork]
  have run : Statement.run reading scope statement = .passed (scope.bindAll bindings) := by
    cases statement <;> simp only [Statement.run, bound]
    simp [Statement.bindings?] at bound
  simp [Statement.runEach, notWork, run]

/-- A guard that fails is passed. -/
theorem runEach_guarded_false {condition : Condition} (fails : condition.holds? reading scope = some false)
    (block : List Statement) :
    Statement.runEach reading scope [.guarded condition block] = .passed scope := by
  simp [Statement.runEach, Statement.run, Statement.isWork, fails]

/-- Behind a guard that holds, the block is run in a scope of its own. -/
theorem runEach_guarded_true {condition : Condition} (holds : condition.holds? reading scope = some true)
    {block : List Statement} (distinct : (declaredNames block).Nodup) :
    Statement.runEach reading scope [.guarded condition block] =
      (Statement.runEach reading (scope.hide (declaredNames block)) block).leaving scope := by
  simp only [Statement.runEach, Statement.run, Statement.isWork, holds, if_pos distinct]
  cases Statement.runEach reading (scope.hide (declaredNames block)) block <;> rfl

/-- A body is reached at its first statement. -/
theorem runEach_body {body : List Statement} (work : ∀ statement ∈ body, statement.isWork)
    (some_ : body ≠ []) : Statement.runEach reading scope body = .reached scope body := by
  cases body with
  | nil => exact absurd rfl some_
  | cons first rest => simp [Statement.runEach, work first]

/-- A body declares nothing that the statements of the pattern see. -/
theorem declaredNames_body {body : List Statement} (work : ∀ statement ∈ body, statement.isWork) :
    declaredNames body = [] := by
  rw [declaredNames, List.flatMap_eq_nil_iff]
  intro statement member
  have := work statement member
  cases statement <;> simp_all [Statement.isWork, Statement.declares]

/-- What a block ends in is what it ends in from outside, with more bindings. -/
theorem Ends.leaving {before after : Scope} {body : List Statement} {outcome : Outcome}
    {inner : Option (List (String × Value))} {shown : List (String × Value)}
    (ends : Ends after body outcome inner)
    (outward : ∀ bindings final, inner = some bindings → Extended after bindings final →
      Extended before (shown ++ bindings) final) (outer : Scope) :
    Ends before body (outcome.leaving outer) (inner.map (shown ++ ·)) := by
  cases inner with
  | none =>
    obtain ⟨final, rfl⟩ := ends
    exact ⟨outer, rfl⟩
  | some bindings =>
    obtain ⟨final, rfl, extended⟩ := ends
    exact ⟨final, rfl, outward bindings final rfl extended⟩

end Running

/-! ## Tests -/

/-- The value is what the anchor asks for. -/
def Anchor.fits (reading : Reading) (scope : Scope) : Anchor → Value → Bool
  | .tag name, value => value.hasTag name
  | .quoted text, value => value.isText (reading.quoted text)
  | .template text, value => value.isText (reading.template scope text)

/-- The test of a part is that of its anchor. -/
theorem fitTest?_eq (reading : Reading) (scope : Scope) (part : ListPart) :
    fitTest? reading scope part = (anchor? part).map (Anchor.fits reading scope) := by
  cases part <;> rfl

/-- The value is a text or an object with a tag. -/
def Value.IsElement : Value → Prop
  | .text _ => True
  | .object member => ∃ tag, member "kind" = .text tag
  | _ => False

/-- The value can be asked for its members: only `undefined` cannot. -/
def Value.Answers (value : Value) : Prop :=
  value ≠ .undefined

theorem Value.IsElement.answers {value : Value} (element : value.IsElement) : value.Answers := by
  rintro rfl
  exact element

/-- Every value that answers can be tested. -/
theorem accepts?_eq {value : Value} (answers : value.Answers) (reading : Reading) (scope : Scope)
    (anchor : Anchor) : anchor.accepts? reading scope value = some (anchor.fits reading scope value) := by
  cases value <;> cases anchor <;>
    simp_all [Value.Answers, Anchor.accepts?, Anchor.fits, Value.member?, Value.hasTag, Value.isText]

/-- The templates of the parts read none of the names. -/
def Steady (reading : Reading) (names : List String) (parts : List ListPart) : Prop :=
  ∀ text, .formatString text ∈ parts → ∀ first second, SameOutside names first second →
    reading.template first text = reading.template second text

/-- What is asked of parts: `[]` in the last place only, and names that are distinct, among those given, not made,
and read by no template. -/
structure Proper (reading : Reading) (names : List String) (parts : List ListPart) : Prop where
  closed : ClosedAtEnd parts
  distinct : (patternNames parts).Nodup
  listed : ∀ name ∈ patternNames parts, name ∈ names
  unmade : ∀ name ∈ patternNames parts, ¬ IsMade name
  steady : Steady reading names parts

theorem Proper.tail {reading : Reading} {names : List String} {part : ListPart} {rest : List ListPart}
    (proper : Proper reading names (part :: rest)) : Proper reading names rest where
  closed := proper.closed.2
  distinct := (List.nodup_append.mp proper.distinct).2.1
  listed name member := proper.listed name (List.mem_append_right _ member)
  unmade name member := proper.unmade name (List.mem_append_right _ member)
  steady text member := proper.steady text (List.mem_cons_of_mem _ member)

/-- The name of a gap is not bound again by the parts behind it. -/
theorem Proper.gap_fresh {reading : Reading} {names : List String} {gap : String} {part : ListPart}
    {rest : List ListPart} (proper : Proper reading names (.name gap :: part :: rest)) :
    gap ∉ boundNames part ∧ gap ∉ patternNames rest := by
  have fresh : gap ∉ boundNames part ++ patternNames rest := (List.nodup_cons.mp proper.distinct).1
  rwa [List.mem_append, not_or] at fresh

/-- A test gives the same wherever only names of the pattern differ. -/
theorem fits_congr {reading : Reading} {names : List String} {part : ListPart} {rest : List ListPart}
    (proper : Proper reading names (part :: rest)) {anchor : Anchor} (anchored : anchor? part = some anchor)
    {scope outer : Scope} (same : SameOutside names scope outer) :
    anchor.fits reading scope = anchor.fits reading outer := by
  cases part <;> simp only [anchor?, Option.some.injEq, reduceCtorEq] at anchored <;> subst anchored
  case formatString text =>
    funext value
    simp only [Anchor.fits, proper.steady text List.mem_cons_self scope outer same]
  all_goals rfl

/-- Cutting at the first element that fits cuts the elements. -/
theorem cutAtFirst_eq {test : Value → Bool} {items before after : List Value} {found : Value}
    (cut : cutAtFirst test items = some (before, found, after)) :
    items = before ++ found :: after ∧ test found = true := by
  induction items generalizing before with
  | nil => simp [cutAtFirst] at cut
  | cons item rest step =>
    simp only [cutAtFirst] at cut
    split at cut
    · rename_i fits
      simp only [Option.some.injEq, Prod.mk.injEq] at cut
      obtain ⟨rfl, rfl, rfl⟩ := cut
      exact ⟨rfl, fits⟩
    · rw [Option.map_eq_some_iff] at cut
      obtain ⟨⟨first, others⟩, cut, same⟩ := cut
      simp only [Prod.mk.injEq] at same
      obtain ⟨rfl, rfl⟩ := same
      obtain ⟨rfl, fits⟩ := step cut
      exact ⟨rfl, fits⟩

/-- **The search finds the place of the cut**, and minus one when there is none. -/
theorem searchFrom_eq {reading : Reading} {scope : Scope} {cursor : String} {anchor : Anchor}
    {test : Value → Bool} {items : List Value}
    (tested : ∀ index : Nat, ∀ value ∈ items,
      anchor.accepts? reading (scope.bind cursor (.number index)) value = some (test value)) (index : Nat) :
    searchFrom reading scope cursor anchor index items =
      some ((cutAtFirst test items).elim (-1) fun cut => ((index + cut.1.length : Nat) : Int)) := by
  induction items generalizing index with
  | nil => rfl
  | cons item rest step =>
    have later := step (fun index value member => tested index value (List.mem_cons_of_mem _ member))
      (index + 1)
    simp only [searchFrom, tested index item List.mem_cons_self, cutAtFirst]
    cases fits : test item with
    | true => simp
    | false =>
      rw [later]
      cases cutAtFirst test rest with
      | none => rfl
      | some cut =>
        simp only [Option.elim_some, Option.map_some, List.length_cons, Option.some.injEq, Bool.false_eq_true,
          if_false]
        congr 1
        omega

/-! ## One element -/

section Elements

variable {reading : Reading} {names : List String} {outer : Scope} {body : List Statement}

/-- The statements that take one element off the list, without the guard for the empty list. -/
def peeled (index : Nat) (list : String) (part : ListPart) (isLast : Bool) (next : List Statement) :
    List Statement :=
  let element := elementName index part
  let taken : Statement := .bindElements [element] (if isLast then none else some (restName index)) list
  match partTest? part element with
  | some test => [taken, .guarded (.elements [test]) (partBindings part element ++ next)]
  | none => taken :: next

theorem peel_zero (list : String) (part : ListPart) (isLast : Bool) (next : List Statement) :
    peel 0 list part isLast next = peeled 0 list part isLast next := rfl

theorem peel_succ (index : Nat) (list : String) (part : ListPart) (isLast : Bool) (next : List Statement) :
    peel (index + 1) list part isLast next =
      [.guarded (.notEmpty list) (peeled (index + 1) list part isLast next)] := rfl

/-- The statements that bind the fields of a part declare its names. -/
theorem declaredNames_partBindings {part : ListPart} (anchored : (anchor? part).isSome) (subject : String) :
    declaredNames (partBindings part subject) = boundNames part := by
  cases part with
  | tag pattern =>
    cases fields : pattern.fields <;>
      simp [partBindings, fieldBindings, boundNames, fields, declaredNames, Statement.declares]
  | name | emptyList => simp [anchor?] at anchored
  | string | formatString => rfl

/-- The fields of a part are bound to those of the element that fits it. -/
theorem runEach_partBindings {part : ListPart} {anchor : Anchor} (anchored : anchor? part = some anchor)
    {value : Value} (fits : anchor.fits reading outer value = true) {scope : Scope} {subject : String}
    (held : scope subject = some value) (next : List Statement) :
    Statement.runEach reading scope (partBindings part subject ++ next) =
      Statement.runEach reading (scope.bindAll (partValues value part)) next := by
  cases part with
  | tag pattern =>
    simp only [anchor?, Option.some.injEq] at anchored
    subst anchored
    cases value <;> simp only [Anchor.fits, Value.hasTag, Bool.false_eq_true] at fits
    rename_i member
    cases fields : pattern.fields with
    | nil => simp [partBindings, fieldBindings, partValues, fields, Scope.bindAll_nil]
    | cons field others =>
      simp only [partBindings, fieldBindings, fields, List.isEmpty_cons, Bool.false_eq_true, if_false,
        List.singleton_append, partValues]
      refine runEach_cons ?_ next
      simp only [Statement.bindings?, held, Value.member?, Option.map_some, Value.memberOf, bind, Option.bind]
      exact List.mapM_pure
  | name | emptyList => simp [anchor?] at anchored
  | string | formatString => rfl

/-- **What comes after the part at an index**, given what is left of the parts and of the list: run in any scope that
holds the rest, it does what matching does, and it declares names of the parts that are left or of later searches. -/
structure Continues (reading : Reading) (names : List String) (outer : Scope) (body : List Statement)
    (index : Nat) (rest : List ListPart) (more : List Value) (next : List Statement) : Prop where
  runs : ∀ inner, (rest ≠ [] → inner (restName index) = some (.list more)) → SameOutside names inner outer →
    Ends inner body (Statement.runEach reading inner next) (matchLater reading outer rest more)
  declares : ∀ name ∈ declaredNames next,
    name ∈ patternNames rest ∨ ∃ later, index < later ∧ name = foundName later
  distinct : (declaredNames next).Nodup

/-- A name of an earlier part is not declared later. -/
theorem Continues.fresh_of_part {index : Nat} {part : ListPart} {rest : List ListPart} {more : List Value}
    {next : List Statement} (continues : Continues reading names outer body index rest more next)
    (proper : Proper reading names (part :: rest)) {name : String} (member : name ∈ boundNames part) :
    name ∉ declaredNames next := by
  intro declared
  rcases continues.declares name declared with later | ⟨later, _, rfl⟩
  · exact (List.nodup_append.mp proper.distinct).2.2 name member name later rfl
  · exact proper.unmade _ (List.mem_append_left _ member) (isMade_madeName .found later)

/-- A made name is declared later only if it is that of a later search. -/
theorem Continues.fresh_of_made {index : Nat} {rest : List ListPart} {more : List Value}
    {next : List Statement} (continues : Continues reading names outer body index rest more next)
    (proper : Proper reading names rest) (role : Role) {number : Nat}
    (other : role = .found → number ≤ index) : madeName role number ∉ declaredNames next := by
  intro declared
  rcases continues.declares _ declared with member | ⟨later, further, same⟩
  · exact proper.unmade _ member (isMade_madeName role number)
  · rw [foundName_eq] at same
    obtain ⟨found, rfl⟩ := madeName_inj.mp same
    have := other found
    omega

/-- A declared name that is not made is a name of the parts. -/
theorem Continues.shown {index : Nat} {rest : List ListPart} {more : List Value} {next : List Statement}
    (continues : Continues reading names outer body index rest more next) {name : String}
    (member : name ∈ declaredNames next) (notMade : ¬ IsMade name) : name ∈ patternNames rest := by
  rcases continues.declares name member with later | ⟨later, _, rfl⟩
  · exact later
  · exact absurd (isMade_madeName .found later) notMade

/-- Binding names of the pattern and made ones changes nothing outside of them. -/
theorem SameOutside.block {before : Scope} (same : SameOutside names before outer) {hidden : List String}
    {bound : List (String × Value)} (hides : ∀ name ∈ hidden, name ∈ names ∨ IsMade name)
    (binds : ∀ name ∈ bound.map Prod.fst, name ∈ names ∨ IsMade name) :
    SameOutside names ((before.hide hidden).bindAll bound) outer := by
  intro name notListed notMade
  have notHidden : name ∉ hidden := fun member => (hides name member).elim notListed notMade
  have notBound : name ∉ bound.map Prod.fst := fun member => (binds name member).elim notListed notMade
  rw [Scope.bindAll_apply, lookup_eq_none_of_not_mem notBound, Scope.hide_of_not_mem notHidden]
  exact same name notListed notMade

/-- The block behind the test of an element: its fields, and then what comes after it. -/
theorem run_fields {index : Nat} {part : ListPart} {rest : List ListPart} {item : Value} {more : List Value}
    {next : List Statement} (proper : Proper reading names (part :: rest)) {anchor : Anchor}
    (anchored : anchor? part = some anchor) (fits : anchor.fits reading outer item = true)
    (continues : Continues reading names outer body index rest more next) {before : Scope} {subject : String}
    (held : before subject = some item) (unhidden : subject ∉ declaredNames (partBindings part subject ++ next))
    (left : rest ≠ [] → before (restName index) = some (.list more))
    (same : SameOutside names before outer) :
    (declaredNames (partBindings part subject ++ next)).Nodup ∧
      Ends before body
        ((Statement.runEach reading (before.hide (declaredNames (partBindings part subject ++ next)))
          (partBindings part subject ++ next)).leaving before)
        ((matchLater reading outer rest more).map (partValues item part ++ ·)) := by
  have anchored' : (anchor? part).isSome := by rw [anchored]; rfl
  have declared : declaredNames (partBindings part subject ++ next) = boundNames part ++ declaredNames next := by
    rw [← declaredNames_partBindings anchored' subject]
    exact List.flatMap_append
  rw [declared] at unhidden ⊢
  have distinct : (boundNames part ++ declaredNames next).Nodup := by
    rw [List.nodup_append]
    refine ⟨(List.nodup_append.mp proper.distinct).1, continues.distinct, ?_⟩
    rintro name member _ later rfl
    exact continues.fresh_of_part proper member later
  refine ⟨distinct, ?_⟩
  have hides : ∀ name ∈ boundNames part ++ declaredNames next, name ∈ names ∨ IsMade name := by
    intro name member
    by_cases made : IsMade name
    · exact .inr made
    · rcases List.mem_append.mp member with own | later
      · exact .inl (proper.listed name (List.mem_append_left _ own))
      · exact .inl (proper.tail.listed name (continues.shown later made))
  rw [runEach_partBindings anchored fits
    (by rw [Scope.hide_of_not_mem unhidden]; exact held)]
  have restFresh : restName index ∉ boundNames part ++ declaredNames next := by
    rw [List.mem_append, not_or]
    exact ⟨fun member => proper.unmade _ (List.mem_append_left _ member) (isMade_madeName .rest index),
      continues.fresh_of_made proper.tail .rest (by simp)⟩
  refine Ends.leaving (continues.runs _ ?_ (same.block hides ?_)) ?_ before
  · intro some_
    have notBound : restName index ∉ (partValues item part).map Prod.fst := by
      rw [names_of_partValues]
      exact fun member => restFresh (List.mem_append_left _ member)
    rw [Scope.bindAll_apply, lookup_eq_none_of_not_mem notBound, Scope.hide_of_not_mem restFresh]
    exact left some_
  · rw [names_of_partValues]
    exact fun name member => .inl (proper.listed name (List.mem_append_left _ member))
  · intro bindings final matched extended
    have keys := names_of_matchLater proper.tail.closed matched
    refine extended.of_block (fun _ _ => rfl) ?_ ?_
    · intro name member notMade
      rw [List.map_append, names_of_partValues, keys]
      exact (List.mem_append.mp member).elim (List.mem_append_left _)
        fun later => List.mem_append_right _ (continues.shown later notMade)
    · rw [List.map_append, names_of_partValues, keys]
      exact proper.distinct

/-- Bindings one after the other are bindings at once. -/
theorem Scope.bindAll_bindAll (first second : List (String × Value)) (scope : Scope) :
    (scope.bindAll first).bindAll second = scope.bindAll (second ++ first) := by
  funext name
  simp only [Scope.bindAll_apply, List.lookup_append, Option.or_assoc]

/-- A name that is neither hidden nor bound in a block has its value from outside. -/
theorem Scope.block_of_not_mem {before : Scope} {hidden : List String} {bound : List (String × Value)}
    {name : String} (unhidden : name ∉ hidden) (unbound : name ∉ bound.map Prod.fst) :
    (before.hide hidden).bindAll bound name = before name := by
  rw [Scope.bindAll_apply, lookup_eq_none_of_not_mem unbound, Scope.hide_of_not_mem unhidden]
  rfl

/-- The name for what is left after the part at an index, if further parts need it. -/
def restOf (index : Nat) (rest : List ListPart) : Option String :=
  if rest.isEmpty then none else some (restName index)

theorem mem_restOf {index : Nat} {rest : List ListPart} {name : String}
    (member : name ∈ (restOf index rest).toList) : name = restName index := by
  cases rest <;> simp_all [restOf]

theorem nodup_restOf (index : Nat) (rest : List ListPart) : (restOf index rest).toList.Nodup := by
  cases rest <;> simp [restOf]

/-- One name and the name of the rest, taken off a list that has an element. -/
theorem elementValues_restOf (index : Nat) (rest : List ListPart) (name : String) (item : Value)
    (more : List Value) :
    elementValues (restOf index rest) [name] (item :: more) =
      (name, item) :: (restOf index rest).toList.map fun left => (left, .list more) := rfl

theorem names_elementValues_restOf (index : Nat) (rest : List ListPart) (name : String) (item : Value)
    (more : List Value) :
    (elementValues (restOf index rest) [name] (item :: more)).map Prod.fst =
      name :: (restOf index rest).toList := by
  simp [elementValues_restOf, Function.comp_def]

/-- The rest is bound to what is left. -/
theorem bindAll_restName {index : Nat} {rest : List ListPart} {name : String} (item : Value)
    (more : List Value) (other : restName index ≠ name) (scope : Scope) (some_ : rest ≠ []) :
    scope.bindAll (elementValues (restOf index rest) [name] (item :: more)) (restName index) =
      some (.list more) := by
  cases rest with
  | nil => exact absurd rfl some_
  | cons part rest =>
    rw [elementValues_restOf]
    simp [Scope.bindAll_apply, restOf, List.lookup_cons, beq_eq_false_iff_ne.mpr other]

/-- Taking a name off the list declares the name, what is left, and what comes after. -/
theorem declaredNames_peeled_name (index : Nat) (list name : String) (rest : List ListPart)
    (next : List Statement) :
    declaredNames (peeled index list (.name name) rest.isEmpty next) =
      name :: ((restOf index rest).toList ++ declaredNames next) := rfl

/-- No name is declared twice. -/
theorem nodup_peeled_name {index : Nat} {name : String} {rest : List ListPart} {more : List Value}
    {next : List Statement} (proper : Proper reading names (.name name :: rest))
    (continues : Continues reading names outer body index rest more next) (list : String) :
    (declaredNames (peeled index list (.name name) rest.isEmpty next)).Nodup := by
  have notMade : ¬ IsMade name := proper.unmade name (by simp)
  rw [declaredNames_peeled_name, List.nodup_cons, List.mem_append, not_or, List.nodup_append]
  refine ⟨⟨fun member => notMade (mem_restOf member ▸ isMade_madeName .rest index),
    continues.fresh_of_part proper (by simp)⟩, nodup_restOf index rest, continues.distinct, ?_⟩
  rintro other member _ later rfl
  rw [mem_restOf member] at later
  exact continues.fresh_of_made proper.tail .rest (by simp) later

/-- A declared name that is not made is a name of the parts. -/
theorem shown_of_mem_peeled_name {index : Nat} {list name : String} {rest : List ListPart} {more : List Value}
    {next : List Statement} (continues : Continues reading names outer body index rest more next)
    {other : String} (member : other ∈ declaredNames (peeled index list (.name name) rest.isEmpty next))
    (notMade : ¬ IsMade other) : other ∈ patternNames (.name name :: rest) := by
  simp only [declaredNames_peeled_name, List.mem_cons, List.mem_append] at member
  rcases member with rfl | own | later
  · simp
  · exact absurd (mem_restOf own ▸ isMade_madeName .rest index) notMade
  · exact List.mem_append_right _ (continues.shown later notMade)

/-- **A name takes one element off the list**, and then comes what follows. -/
theorem run_peeled_name {index : Nat} {name : String} {rest : List ListPart} {item : Value}
    {more : List Value} {next : List Statement} (proper : Proper reading names (.name name :: rest))
    (continues : Continues reading names outer body index rest more next)
    {before : Scope} {list : String} (held : before list = some (.list (item :: more)))
    (unhidden : list ∉ declaredNames (peeled index list (.name name) rest.isEmpty next))
    (same : SameOutside names before outer) :
    (declaredNames (peeled index list (.name name) rest.isEmpty next)).Nodup ∧
      Ends before body
        ((Statement.runEach reading
          (before.hide (declaredNames (peeled index list (.name name) rest.isEmpty next)))
          (peeled index list (.name name) rest.isEmpty next)).leaving before)
        ((matchLater reading outer rest more).map (partValues item (.name name) ++ ·)) := by
  refine ⟨nodup_peeled_name proper continues list, ?_⟩
  have opened : peeled index list (.name name) rest.isEmpty next =
      .bindElements [name] (restOf index rest) list :: next := rfl
  have notRest : restName index ≠ name := fun equal =>
    proper.unmade name (by simp) (equal ▸ isMade_madeName .rest index)
  set hidden := declaredNames (peeled index list (.name name) rest.isEmpty next)
  have shown : ∀ other ∈ hidden, ¬ IsMade other → other ∈ patternNames (.name name :: rest) :=
    fun other member notMade => shown_of_mem_peeled_name continues member notMade
  have hides : ∀ other ∈ hidden, other ∈ names ∨ IsMade other := fun other member =>
    or_iff_not_imp_right.mpr fun notMade => proper.listed other (shown other member notMade)
  have binds : ∀ other ∈ (elementValues (restOf index rest) [name] (item :: more)).map Prod.fst,
      other ∈ hidden := by
    intro other member
    rw [names_elementValues_restOf] at member
    exact List.mem_append_left (declaredNames next) member
  have listHeld : (before.hide hidden).items? list = some (item :: more) := by
    simp [Scope.items?, Scope.hide_of_not_mem unhidden, held, Value.items?]
  rw [opened, runEach_cons (by rw [Statement.bindings?, listHeld]; rfl)]
  refine Ends.leaving (continues.runs _ (bindAll_restName item more notRest _)
    (same.block hides fun other member => hides other (binds other member))) ?_ before
  intro bindings final matched extended
  have keys := names_of_matchLater proper.tail.closed matched
  have shownKeys : (partValues item (.name name) ++ bindings).map Prod.fst =
      patternNames (.name name :: rest) := by
    rw [List.map_append, names_of_partValues, keys, patternNames_cons]
  refine extended.of_block ?_ (shownKeys ▸ shown) (shownKeys ▸ proper.distinct)
  intro key keyNotMade
  have other : key ≠ restName index := fun equal => keyNotMade (equal ▸ isMade_madeName .rest index)
  rw [elementValues_restOf]
  cases rest <;> simp [restOf, partValues, List.lookup_cons, beq_eq_false_iff_ne.mpr other]

/-- Scopes that differ in made names only are as good as each other. -/
theorem Ends.of_same {before after : Scope} {outcome : Outcome} {result : Option (List (String × Value))}
    (ends : Ends after body outcome result) (same : ∀ name, ¬ IsMade name → after name = before name) :
    Ends before body outcome result := by
  cases result with
  | none => exact ends
  | some bindings =>
    obtain ⟨final, reached, extended⟩ := ends
    exact ⟨final, reached, fun name notMade => by rw [extended name notMade, same name notMade]⟩

/-- What a block ends in does not change outside of it. -/
theorem Ends.leave {before outside : Scope} {outcome : Outcome} {result : Option (List (String × Value))}
    (ends : Ends before body outcome result) : Ends before body (outcome.leaving outside) result := by
  cases result with
  | none =>
    obtain ⟨final, rfl⟩ := ends
    exact ⟨outside, rfl⟩
  | some bindings =>
    obtain ⟨final, rfl, extended⟩ := ends
    exact ⟨final, rfl, extended⟩

theorem declaredNames_peeled_anchor {part : ListPart} (anchored : (anchor? part).isSome) (index : Nat)
    (list : String) (rest : List ListPart) (next : List Statement) :
    declaredNames (peeled index list part rest.isEmpty next) =
      madeName .element index :: (restOf index rest).toList := by
  rw [← elementName_anchor index anchored]
  cases part <;> simp [anchor?] at anchored <;>
    simp [peeled, partTest?, anchor?, declaredNames, Statement.declares, restOf]

/-- Taking a tag or a text off the list declares made names only. -/
theorem isMade_of_mem_peeled_anchor {part : ListPart} (anchored : (anchor? part).isSome) {index : Nat}
    {list : String} {rest : List ListPart} {next : List Statement} {name : String}
    (member : name ∈ declaredNames (peeled index list part rest.isEmpty next)) : IsMade name := by
  rw [declaredNames_peeled_anchor anchored] at member
  rcases List.mem_cons.mp member with rfl | member
  · exact isMade_madeName .element index
  · exact mem_restOf member ▸ isMade_madeName .rest index

/-- The name of what is left is not that of an element. -/
theorem restName_ne_elementName {part : ListPart} (anchored : (anchor? part).isSome) (index : Nat) :
    restName index ≠ elementName index part := by
  rw [elementName_anchor index anchored, restName_eq]
  simp [madeName_inj]

/-- The block behind the test of a tag or a text does not declare the element again. -/
theorem elementName_fresh {index : Nat} {part : ListPart} {rest : List ListPart} {more : List Value}
    {next : List Statement} (proper : Proper reading names (part :: rest)) (anchored : (anchor? part).isSome)
    (continues : Continues reading names outer body index rest more next) :
    elementName index part ∉ declaredNames (partBindings part (elementName index part) ++ next) := by
  have declared : declaredNames (partBindings part (elementName index part) ++ next) =
      boundNames part ++ declaredNames next := by
    rw [← declaredNames_partBindings anchored (elementName index part)]
    exact List.flatMap_append
  rw [declared, List.mem_append, not_or, elementName_anchor index anchored]
  exact ⟨fun member => proper.unmade _ (List.mem_append_left _ member) (isMade_madeName .element index),
    continues.fresh_of_made proper.tail .element (by simp)⟩

/-- **A tag or a text takes one element off the list if it fits**, and then comes what follows. -/
theorem run_peeled_anchor {index : Nat} {part : ListPart} {rest : List ListPart} {item : Value}
    {more : List Value} {next : List Statement} (proper : Proper reading names (part :: rest))
    {anchor : Anchor} (anchored : anchor? part = some anchor) (element : item.Answers)
    (continues : Continues reading names outer body index rest more next)
    {before : Scope} {list : String} (held : before list = some (.list (item :: more)))
    (unhidden : list ∉ declaredNames (peeled index list part rest.isEmpty next))
    (same : SameOutside names before outer) :
    (declaredNames (peeled index list part rest.isEmpty next)).Nodup ∧
      Ends before body
        ((Statement.runEach reading (before.hide (declaredNames (peeled index list part rest.isEmpty next)))
          (peeled index list part rest.isEmpty next)).leaving before)
        (if anchor.fits reading outer item then
          (matchLater reading outer rest more).map (partValues item part ++ ·)
        else none) := by
  have anchored' : (anchor? part).isSome := by rw [anchored]; rfl
  have hides : ∀ name ∈ declaredNames (peeled index list part rest.isEmpty next), IsMade name :=
    fun name member => isMade_of_mem_peeled_anchor anchored' member
  have notRest := restName_ne_elementName anchored' index
  have opened : peeled index list part rest.isEmpty next =
      [.bindElements [elementName index part] (restOf index rest) list,
        .guarded (.elements [⟨elementName index part, anchor⟩])
          (partBindings part (elementName index part) ++ next)] := by
    simp only [peeled, partTest?, anchored, Option.map_some]
    rfl
  have declared : declaredNames (peeled index list part rest.isEmpty next) =
      elementName index part :: (restOf index rest).toList := by
    rw [elementName_anchor index anchored', declaredNames_peeled_anchor anchored']
  rw [declared] at unhidden hides ⊢
  set subject := elementName index part
  refine ⟨List.nodup_cons.mpr
    ⟨fun member => notRest (mem_restOf member).symm, nodup_restOf index rest⟩, ?_⟩
  have listHeld : (before.hide (subject :: (restOf index rest).toList)).items? list =
      some (item :: more) := by
    simp [Scope.items?, Scope.hide_of_not_mem unhidden, held, Value.items?]
  rw [opened, runEach_cons (by rw [Statement.bindings?, listHeld]; rfl)]
  set inner := (before.hide (subject :: (restOf index rest).toList)).bindAll
    (elementValues (restOf index rest) [subject] (item :: more)) with inner_eq
  have innerSubject : inner subject = some item := by
    simp [inner_eq, elementValues_restOf, Scope.bindAll_apply]
  have innerBefore : ∀ name, ¬ IsMade name → inner name = before name := fun name notMade =>
    Scope.block_of_not_mem (fun member => notMade (hides name member)) (fun member =>
      notMade (hides name (by rwa [names_elementValues_restOf] at member)))
  have innerSame : SameOutside names inner outer := fun name notListed notMade => by
    rw [innerBefore name notMade, same name notListed notMade]
  have tested : Condition.holds? reading inner (.elements [⟨subject, anchor⟩]) =
      some (anchor.fits reading outer item) := by
    simp only [Condition.holds?, ElementTest.allHold?, innerSubject, Option.bind_some,
      accepts?_eq element, fits_congr proper anchored innerSame]
    cases anchor.fits reading outer item <;> rfl
  cases fits : anchor.fits reading outer item with
  | false =>
    rw [runEach_guarded_false (by rw [tested, fits])]
    exact ⟨before, rfl⟩
  | true =>
    obtain ⟨distinct, ends⟩ := run_fields proper anchored fits continues innerSubject
      (elementName_fresh proper anchored' continues) (bindAll_restName item more notRest _) innerSame
    rw [runEach_guarded_true (by rw [tested, fits]) distinct, if_pos rfl]
    exact (ends.of_same innerBefore).leave

/-- A name that is neither made nor of the parts that are left is not declared later. -/
theorem Continues.fresh_of_other {index : Nat} {rest : List ListPart} {more : List Value}
    {next : List Statement} (continues : Continues reading names outer body index rest more next)
    {name : String} (other : name ∉ patternNames rest) (notMade : ¬ IsMade name) :
    name ∉ declaredNames next := by
  intro declared
  exact other (continues.shown declared notMade)

/-- The statements in the block of a search that found the element of a part: its fields, if it has some. -/
def foundBindings (index : Nat) (list : String) (part : ListPart) : List Statement :=
  let bindings := partBindings part (madeName .element index)
  if bindings.isEmpty then []
  else .bindElementAt (madeName .element index) list (foundName index) :: bindings

/-- The statement that keeps what is left after the element found, if further parts need it. -/
def afterBinding (index : Nat) (list : String) (rest : List ListPart) : List Statement :=
  if rest.isEmpty then [] else [.bindAfter (restName index) list (foundName index)]

/-- What the element found is bound under, besides its fields. -/
def foundValues (index : Nat) (found : Value) (part : ListPart) : List (String × Value) :=
  if (boundNames part).isEmpty then [] else [(madeName .element index, found)]

theorem isMade_of_mem_foundValues {index : Nat} {found : Value} {part : ListPart} {name : String}
    (member : name ∈ (foundValues index found part).map Prod.fst) : name = madeName .element index := by
  unfold foundValues at member
  split at member <;> simp_all

theorem declaredNames_foundBindings {part : ListPart} (anchored : (anchor? part).isSome) (index : Nat)
    (list : String) (found : Value) :
    declaredNames (foundBindings index list part) =
      (foundValues index found part).map Prod.fst ++ boundNames part := by
  have fields := declaredNames_partBindings anchored (madeName .element index)
  cases part with
  | tag pattern =>
    cases shape : pattern.fields <;>
      simp_all [foundBindings, foundValues, partBindings, fieldBindings, boundNames, declaredNames,
        Statement.declares]
  | name | emptyList => simp [anchor?] at anchored
  | string | formatString => rfl

theorem declaredNames_afterBinding (index : Nat) (list : String) (rest : List ListPart) :
    declaredNames (afterBinding index list rest) = (restOf index rest).toList := by
  cases rest <;> simp [afterBinding, restOf, declaredNames, Statement.declares]

/-- The fields of the element found are bound. -/
theorem runEach_foundBindings {index : Nat} {list : String} {part : ListPart} {anchor : Anchor}
    (anchored : anchor? part = some anchor) {before after : List Value} {found : Value}
    (fits : anchor.fits reading outer found = true) {scope : Scope}
    (held : scope list = some (.list (before ++ found :: after)))
    (position : scope (foundName index) = some (.number before.length)) (next : List Statement) :
    Statement.runEach reading scope (foundBindings index list part ++ next) =
      Statement.runEach reading (scope.bindAll (partValues found part ++ foundValues index found part)) next := by
  by_cases fieldless : boundNames part = []
  · have none_ : partBindings part (madeName .element index) = [] := by
      cases part <;> simp_all [partBindings, fieldBindings, boundNames]
    have values : partValues found part = [] := by
      rw [← List.map_eq_nil_iff, names_of_partValues, fieldless]
    simp [foundBindings, none_, foundValues, fieldless, values, Scope.bindAll_nil]
  · have some_ : (partBindings part (madeName .element index)).isEmpty = false := by
      cases part <;> simp_all [partBindings, fieldBindings, boundNames, anchor?]
    have shown : (boundNames part).isEmpty = false := by simpa using fieldless
    have bound : Statement.bindings? reading scope
        (.bindElementAt (madeName .element index) list (foundName index)) =
          some [(madeName .element index, found)] := by
      simp [Statement.bindings?, Scope.items?, Scope.number?, held, position, Value.items?, Value.number?,
        Value.itemAt]
    simp only [foundBindings, some_, Bool.false_eq_true, if_false, List.cons_append]
    rw [runEach_cons bound, runEach_partBindings anchored fits (by simp [Scope.bindAll_apply]),
      Scope.bindAll_bindAll]
    simp [foundValues, shown]

/-- What is left after the element found is kept. -/
theorem runEach_afterBinding {index : Nat} {list : String} {rest : List ListPart} {before after : List Value}
    {found : Value} {scope : Scope} (held : scope list = some (.list (before ++ found :: after)))
    (position : scope (foundName index) = some (.number before.length)) (next : List Statement) :
    Statement.runEach reading scope (afterBinding index list rest ++ next) =
      Statement.runEach reading
        (scope.bindAll ((restOf index rest).toList.map fun left => (left, .list after))) next := by
  cases rest with
  | nil => rfl
  | cons part rest =>
    have length : ((before.length : Int) + 1).toNat = before.length + 1 := by omega
    have bound : Statement.bindings? reading scope (.bindAfter (restName index) list (foundName index)) =
        some [(restName index, .list after)] := by
      simp [Statement.bindings?, Scope.items?, Scope.number?, held, position, Value.items?, Value.number?,
        length, List.drop_append]
    simp only [afterBinding, List.isEmpty_cons, Bool.false_eq_true, if_false, List.singleton_append]
    rw [runEach_cons bound]
    rfl

/-- The block of a search that found an element. -/
def foundBlock (index : Nat) (gap list : String) (part : ListPart) (rest : List ListPart)
    (next : List Statement) : List Statement :=
  .bindBefore gap list (foundName index) ::
    (foundBindings index list part ++ (afterBinding index list rest ++ next))

theorem gapSearch_eq (index : Nat) (gap list : String) (part : ListPart) (anchor : Anchor)
    (rest : List ListPart) (next : List Statement) :
    gapSearch index gap list part anchor rest.isEmpty next =
      [.search (foundName index) (cursorName index) list anchor,
        .guarded (.isFound (foundName index)) (foundBlock index gap list part rest next)] := by
  simp only [gapSearch, foundBlock, foundBindings, afterBinding, List.cons_append, List.append_assoc]
  rfl

/-- The names that the block declares: the gap, the element with its fields, the rest, and what comes after. -/
theorem declaredNames_foundBlock {index : Nat} {gap list : String} {part : ListPart} {rest : List ListPart}
    {next : List Statement} (anchored : (anchor? part).isSome) (found : Value) :
    declaredNames (foundBlock index gap list part rest next) =
      gap :: ((foundValues index found part).map Prod.fst ++ boundNames part ++
        ((restOf index rest).toList ++ declaredNames next)) := by
  rw [← declaredNames_foundBindings anchored index list found,
    ← declaredNames_afterBinding index list rest]
  simp [foundBlock, declaredNames, Statement.declares]

/-- The block declares no name twice. -/
theorem nodup_foundBlock {index : Nat} {gap list : String} {part : ListPart} {rest : List ListPart}
    {after : List Value} {next : List Statement} (proper : Proper reading names (.name gap :: part :: rest))
    (anchored : (anchor? part).isSome)
    (follows : Continues reading names outer body index rest after next) :
    (declaredNames (foundBlock index gap list part rest next)).Nodup := by
  have gapNotMade : ¬ IsMade gap := proper.unmade gap (by simp)
  have made : ∀ name ∈ (foundValues index .undefined part).map Prod.fst ++ (restOf index rest).toList,
      IsMade name := by
    intro name member
    rcases List.mem_append.mp member with element | left
    · exact isMade_of_mem_foundValues element ▸ isMade_madeName .element index
    · exact mem_restOf left ▸ isMade_madeName .rest index
  rw [declaredNames_foundBlock anchored .undefined, List.nodup_cons]
  constructor
  · simp only [List.mem_append, not_or]
    exact ⟨⟨fun member => gapNotMade (made gap (List.mem_append_left _ member)), proper.gap_fresh.1⟩,
      fun member => gapNotMade (made gap (List.mem_append_right _ member)),
      follows.fresh_of_other proper.gap_fresh.2 gapNotMade⟩
  · rw [List.nodup_append, List.nodup_append, List.nodup_append]
    refine ⟨⟨?_, (List.nodup_append.mp proper.tail.distinct).1, ?_⟩,
      ⟨nodup_restOf index rest, follows.distinct, ?_⟩, ?_⟩
    · unfold foundValues
      split <;> simp
    · rintro name element _ field rfl
      exact proper.tail.unmade name (List.mem_append_left _ field) (made name (List.mem_append_left _ element))
    · rintro name left _ later rfl
      rw [mem_restOf left] at later
      exact follows.fresh_of_made proper.tail.tail .rest (by simp) later
    · rintro name earlier _ later rfl
      rcases List.mem_append.mp earlier with element | field
      · have element := isMade_of_mem_foundValues element
        rcases List.mem_append.mp later with left | later
        · rw [mem_restOf left, restName_eq] at element
          simp [madeName_inj] at element
        · rw [element] at later
          exact follows.fresh_of_made proper.tail.tail .element (by simp) later
      · rcases List.mem_append.mp later with left | later
        · exact proper.tail.unmade name (List.mem_append_left _ field)
            (made name (List.mem_append_right _ left))
        · exact follows.fresh_of_part proper.tail field later

/-- A name made for another use or for an earlier part is not declared in the block. -/
theorem not_mem_foundBlock {index : Nat} {gap list : String} {part : ListPart} {rest : List ListPart}
    {after : List Value} {next : List Statement} (proper : Proper reading names (.name gap :: part :: rest))
    (anchored : (anchor? part).isSome)
    (follows : Continues reading names outer body index rest after next) {role : Role} {number : Nat}
    (notElement : role ≠ .element) (notRest : role = .rest → number ≠ index)
    (notLater : role = .found → number ≤ index) :
    madeName role number ∉ declaredNames (foundBlock index gap list part rest next) := by
  have made := isMade_madeName role number
  simp only [declaredNames_foundBlock anchored .undefined, List.mem_cons, List.mem_append, not_or]
  refine ⟨fun equal => proper.unmade gap (by simp) (equal ▸ made), ⟨fun member => ?_, fun member =>
    proper.tail.unmade _ (List.mem_append_left _ member) made⟩, fun member => ?_,
    follows.fresh_of_made proper.tail.tail role notLater⟩
  · exact notElement (madeName_inj.mp (isMade_of_mem_foundValues member)).1
  · have equal := mem_restOf member
    rw [restName_eq, madeName_inj] at equal
    exact notRest equal.1 equal.2

/-- A name that the block declares and that is not made is a name of the parts. -/
theorem shown_of_mem_foundBlock {index : Nat} {gap list : String} {part : ListPart} {rest : List ListPart}
    {after : List Value} {next : List Statement} (anchored : (anchor? part).isSome)
    (follows : Continues reading names outer body index rest after next) {name : String}
    (member : name ∈ declaredNames (foundBlock index gap list part rest next)) (notMade : ¬ IsMade name) :
    name ∈ patternNames (.name gap :: part :: rest) := by
  simp only [declaredNames_foundBlock anchored .undefined, List.mem_cons, List.mem_append] at member
  rcases member with rfl | (element | field) | left | later
  · simp
  · exact absurd (isMade_of_mem_foundValues element ▸ isMade_madeName .element index) notMade
  · simp [field]
  · exact absurd (mem_restOf left ▸ isMade_madeName .rest index) notMade
  · simp [follows.shown later notMade]

/-- The values that the block binds before what follows, the last one first. -/
def foundFrame (index : Nat) (gap : String) (part : ListPart) (rest : List ListPart) (before : List Value)
    (found : Value) (after : List Value) : List (String × Value) :=
  (restOf index rest).toList.map (fun left => (left, .list after)) ++
    (partValues found part ++ foundValues index found part ++ [(gap, .list before)])

theorem names_of_foundFrame (index : Nat) (gap : String) (part : ListPart) (rest : List ListPart)
    (before : List Value) (found : Value) (after : List Value) :
    (foundFrame index gap part rest before found after).map Prod.fst =
      (restOf index rest).toList ++ (boundNames part ++ (foundValues index found part).map Prod.fst ++ [gap]) := by
  simp [foundFrame, names_of_partValues, Function.comp_def]

/-- What the block binds it declares. -/
theorem mem_foundBlock_of_frame {index : Nat} {gap list : String} {part : ListPart} {rest : List ListPart}
    {before after : List Value} {found : Value} (anchored : (anchor? part).isSome) (next : List Statement)
    {name : String} (member : name ∈ (foundFrame index gap part rest before found after).map Prod.fst) :
    name ∈ declaredNames (foundBlock index gap list part rest next) := by
  simp only [names_of_foundFrame, List.mem_append, List.mem_singleton] at member
  simp only [declaredNames_foundBlock anchored found, List.mem_cons, List.mem_append]
  tauto

/-- A name that is not made has in the block the value that the gap or the part gives it. -/
theorem lookup_foundFrame {index : Nat} {gap : String} {part : ListPart} (fresh : gap ∉ boundNames part)
    (rest : List ListPart) (before : List Value) (found : Value) (after : List Value) {name : String}
    (notMade : ¬ IsMade name) :
    (foundFrame index gap part rest before found after).lookup name =
      ((gap, Value.list before) :: partValues found part).lookup name := by
  have notElement : name ∉ (foundValues index found part).map Prod.fst := fun member =>
    notMade (isMade_of_mem_foundValues member ▸ isMade_madeName .element index)
  have notLeft : name ∉ ((restOf index rest).toList.map fun left => (left, Value.list after)).map Prod.fst :=
    fun member => notMade (mem_restOf (by simpa using member) ▸ isMade_madeName .rest index)
  simp only [foundFrame, List.lookup_append, lookup_eq_none_of_not_mem notElement,
    lookup_eq_none_of_not_mem notLeft, Option.none_or, Option.or_none, List.lookup_cons]
  by_cases gapName : name = gap
  · subst gapName
    have notField : name ∉ (partValues found part).map Prod.fst := by rwa [names_of_partValues]
    simp [lookup_eq_none_of_not_mem notField]
  · simp [beq_eq_false_iff_ne.mpr gapName]

/-- The block binds its values and goes on with what follows, if it binds neither the list nor the position that it
reads. -/
theorem runEach_foundBlock {index : Nat} {gap list : String} {part : ListPart} {anchor : Anchor}
    {rest : List ListPart} {before after : List Value} {found : Value} (anchored : anchor? part = some anchor)
    (fits : anchor.fits reading outer found = true) {scope : Scope}
    (held : scope list = some (.list (before ++ found :: after)))
    (position : scope (foundName index) = some (.number before.length))
    (listUnbound : list ∉ (foundFrame index gap part rest before found after).map Prod.fst)
    (positionUnbound : foundName index ∉ (foundFrame index gap part rest before found after).map Prod.fst)
    (next : List Statement) :
    Statement.runEach reading scope (foundBlock index gap list part rest next) =
      Statement.runEach reading (scope.bindAll (foundFrame index gap part rest before found after)) next := by
  have reads : ∀ bound : List (String × Value),
      (∀ name ∈ bound.map Prod.fst, name ∈ (foundFrame index gap part rest before found after).map Prod.fst) →
      scope.bindAll bound list = some (.list (before ++ found :: after)) ∧
        scope.bindAll bound (foundName index) = some (.number before.length) := by
    intro bound within
    simp only [Scope.bindAll_apply, lookup_eq_none_of_not_mem fun member => listUnbound (within _ member),
      lookup_eq_none_of_not_mem fun member => positionUnbound (within _ member), Option.none_or]
    exact ⟨held, position⟩
  have gapBound : Statement.bindings? reading scope (.bindBefore gap list (foundName index)) =
      some [(gap, .list before)] := by
    simp [Statement.bindings?, Scope.items?, Scope.number?, held, position, Value.items?, Value.number?]
  have ofGap := reads [(gap, .list before)] (by simp [names_of_foundFrame])
  have ofValues := reads (partValues found part ++ foundValues index found part ++ [(gap, .list before)])
    (by simp only [foundFrame, List.map_append, List.mem_append]; tauto)
  rw [foundBlock, runEach_cons gapBound, runEach_foundBindings anchored fits ofGap.1 ofGap.2,
    Scope.bindAll_bindAll, runEach_afterBinding ofValues.1 ofValues.2, Scope.bindAll_bindAll, foundFrame]

/-- **The block of a search that found an element** binds the gap and the fields, and then comes what follows. -/
theorem run_found {index : Nat} {gap : String} {part : ListPart} {anchor : Anchor} {rest : List ListPart}
    {before after : List Value} {found : Value} {next : List Statement}
    (proper : Proper reading names (.name gap :: part :: rest)) (anchored : anchor? part = some anchor)
    (fits : anchor.fits reading outer found = true)
    (follows : Continues reading names outer body index rest after next)
    {scope : Scope} {earlier : Nat} (past : earlier < index)
    (held : scope (restName earlier) = some (.list (before ++ found :: after)))
    (position : scope (foundName index) = some (.number before.length))
    (same : SameOutside names scope outer) :
    Ends scope body
      (Statement.runEach reading scope [.guarded (.isFound (foundName index))
        (foundBlock index gap (restName earlier) part rest next)])
      ((matchLater reading outer rest after).map (((gap, .list before) :: partValues found part) ++ ·)) := by
  have anchored' : (anchor? part).isSome := by rw [anchored]; rfl
  have holds : Condition.holds? reading scope (.isFound (foundName index)) = some true := by
    simp only [Condition.holds?, Scope.number?, position, Option.bind_some, Value.number?, Option.map_some,
      Option.some.injEq, decide_eq_true_eq]
    omega
  rw [runEach_guarded_true holds (nodup_foundBlock proper anchored' follows)]
  set hidden := declaredNames (foundBlock index gap (restName earlier) part rest next) with hidden_eq
  have bound : ∀ name ∈ (foundFrame index gap part rest before found after).map Prod.fst, name ∈ hidden :=
    fun name member => mem_foundBlock_of_frame anchored' next member
  -- what the block reads of earlier parts is neither hidden nor bound in it
  have restKept : restName earlier ∉ hidden := by
    rw [restName_eq]
    exact not_mem_foundBlock proper anchored' follows (by simp) (fun _ => by omega) (by simp)
  have foundKept : foundName index ∉ hidden := by
    rw [foundName_eq]
    exact not_mem_foundBlock proper anchored' follows (by simp) (by simp) (fun _ => Nat.le_refl _)
  have hides : ∀ name ∈ hidden, name ∈ names ∨ IsMade name := fun name member =>
    or_iff_not_imp_right.mpr fun notMade =>
      proper.listed name (shown_of_mem_foundBlock anchored' follows member notMade)
  rw [runEach_foundBlock anchored fits (by rw [Scope.hide_of_not_mem restKept, held])
    (by rw [Scope.hide_of_not_mem foundKept, position]) (fun member => restKept (bound _ member))
    (fun member => foundKept (bound _ member))]
  refine Ends.leaving (follows.runs _ ?_ (same.block hides fun name member => hides name (bound name member)))
    ?_ scope
  · intro some_
    cases rest with
    | nil => exact absurd rfl some_
    | cons next others => simp [foundFrame, restOf, Scope.bindAll_apply]
  · intro bindings final matched extended
    have keys := names_of_matchLater proper.tail.tail.closed matched
    have shownKeys : (((gap, Value.list before) :: partValues found part) ++ bindings).map Prod.fst =
        patternNames (.name gap :: part :: rest) := by
      simp [names_of_partValues, keys]
    exact extended.of_block (fun name notMade => lookup_foundFrame proper.gap_fresh.1 rest before found after notMade)
      (fun name member notMade => shownKeys ▸ shown_of_mem_foundBlock anchored' follows member notMade)
      (shownKeys ▸ proper.distinct)

/-- **A gap takes everything before the first element that fits**, the part behind it takes that element, and then comes
what follows. -/
theorem run_gap {index : Nat} {gap : String} {part : ListPart} {anchor : Anchor} {rest : List ListPart}
    {items : List Value} {next : List Statement} (proper : Proper reading names (.name gap :: part :: rest))
    (anchored : anchor? part = some anchor) (elements : ∀ item ∈ items, item.Answers)
    (continues : ∀ after, (∀ item ∈ after, item.Answers) →
      Continues reading names outer body index rest after next)
    {scope : Scope} {earlier : Nat} (past : earlier < index)
    (held : scope (restName earlier) = some (.list items)) (same : SameOutside names scope outer) :
    Ends scope body
      (Statement.runEach reading scope
        (gapSearch index gap (restName earlier) part anchor rest.isEmpty next))
      ((cutAtFirst (anchor.fits reading outer) items).bind fun cut =>
        (matchLater reading outer rest cut.2.2).map
          (((gap, .list cut.1) :: partValues cut.2.1 part) ++ ·)) := by
  -- the search runs where only made names are new, and so it gives the place of the cut
  have tested : ∀ (number : Nat), ∀ value ∈ items, anchor.accepts? reading
      (Scope.bind (cursorName index) (.number number)
        (Scope.bind (foundName index) (.number (-1)) scope)) value =
        some (anchor.fits reading outer value) := by
    intro number value member
    have searching : SameOutside names (Scope.bind (cursorName index) (.number number)
        (Scope.bind (foundName index) (.number (-1)) scope)) outer := by
      intro name notListed notMade
      have notCursor : name ≠ cursorName index := fun equal => notMade (equal ▸ isMade_madeName .cursor index)
      have notFound : name ≠ foundName index := fun equal => notMade (equal ▸ isMade_madeName .found index)
      simp only [Scope.bind, notCursor, notFound, if_false]
      exact same name notListed notMade
    rw [accepts?_eq (elements value member), fits_congr proper.tail anchored searching]
  have searched : Statement.bindings? reading scope
      (.search (foundName index) (cursorName index) (restName earlier) anchor) =
        some [(foundName index, .number ((cutAtFirst (anchor.fits reading outer) items).elim (-1)
          fun cut => ((0 + cut.1.length : Nat) : Int)))] := by
    simp only [Statement.bindings?, Scope.items?, held, Option.bind_some, Value.items?, bind,
      searchFrom_eq tested 0, pure]
  rw [gapSearch_eq, runEach_cons searched]
  cases cut : cutAtFirst (anchor.fits reading outer) items with
  | none =>
    rw [runEach_guarded_false (by
      simp [Condition.holds?, Scope.number?, Scope.bindAll_apply, Value.number?])]
    exact ⟨_, rfl⟩
  | some parts =>
    obtain ⟨before, found, after⟩ := parts
    obtain ⟨rfl, fits⟩ := cutAtFirst_eq cut
    have follows := continues after fun item member =>
      elements item (List.mem_append_right _ (List.mem_cons_of_mem _ member))
    simp only [Option.elim_some, Nat.zero_add, Option.bind_some]
    have unmadeSame : ∀ name, ¬ IsMade name →
        scope.bindAll [(foundName index, .number before.length)] name = scope name := by
      intro name notMade
      have other : name ≠ foundName index := fun equal => notMade (equal ▸ isMade_madeName .found index)
      simp [Scope.bindAll_apply, List.lookup_cons, beq_eq_false_iff_ne.mpr other]
    have apart : restName earlier ≠ foundName index := by
      rw [restName_eq, foundName_eq]
      simp [madeName_inj]
    have stillHeld : scope.bindAll [(foundName index, .number before.length)] (restName earlier) =
        some (.list (before ++ found :: after)) := by
      simpa [Scope.bindAll_apply, List.lookup_cons, beq_eq_false_iff_ne.mpr apart] using held
    have ends := run_found proper anchored fits follows past stillHeld (by simp [Scope.bindAll_apply])
      (fun name notListed notMade => by rw [unmadeSame name notMade, same name notListed notMade])
    exact ends.of_same unmadeSame

end Elements

end DerwLang.Ecma
