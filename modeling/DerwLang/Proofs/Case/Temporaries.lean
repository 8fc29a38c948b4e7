/-
**Where temporaries are read before they are declared.**

The value of a case gets a temporary, and equal texts share one. A case at the end of a branch is declared in the block of
the branch, which may take the value of the outer case apart before that. If both cases look at the same text, the block
reads the temporary in front of its own declaration. Nothing else gets out of order.

* `sound_listPattern`: taking a list apart reads no temporary but the list;
* `closed_sound`: what is lowered reads no temporary from outside, and its blocks are orderly;
* `orderly_moduleDeclarations`: in every module that names no temporary itself, each block declares its temporaries once
  and before all that refers to them, unless it is `Reexamined`;
* `repeated_case_reads_early`: a case on the value that the branch around it has taken apart.
-/

import DerwLang.Ecma.Module
import DerwLang.Proofs.Case.Lowered
import DerwLang.Proofs.Pipes.Everywhere

namespace DerwLang

/-! ## The texts of the source -/

/-- The texts of a part that become names or hold some. -/
def ListPart.texts : ListPart → List String
  | .name bound => [bound]
  | .tag pattern => pattern.fields
  | .formatString text => [text]
  | .string _ | .emptyList => []

/-- The texts of a pattern that become names or hold some. -/
def Pattern.texts : Pattern → List String
  | .tag pattern => pattern.fields
  | .formatString text => [text]
  | .list parts => parts.flatMap ListPart.texts
  | .string _ | .emptyList | .otherwise => []

/-- The texts of an expression that become names or hold some, those of the expressions in it aside. -/
def Expression.texts : Expression → List String
  | .value text | .formatString text => [text]
  | .range first last => [first, last]
  | .record ⟨base, _⟩ => base.toList
  | .call name _ => [name]
  | .construct tag ⟨base, _⟩ => tag :: base.toList
  | .reference path inner => path ++ inner.texts
  | _ => []

/-- No text of the source mentions a temporary. -/
def freshTexts : Checks where
  expression expression := ∀ text ∈ expression.texts, Ecma.Fresh text
  pattern pattern := ∀ text ∈ pattern.texts, Ecma.Fresh text

namespace Ecma

/-! ## List patterns -/

section ListPatterns

variable {list held : String} {body : List Statement} {part : ListPart} {index : Nat}

/-- The list, or what is left of it. -/
def Remains (list held : String) : Prop :=
  held = list ∨ IsMade held

theorem remains_rest (list : String) (index : Nat) : Remains list (restName index) :=
  .inr (isMade_madeName .rest index)

/-- If what is left of the list is a temporary, it is the list. -/
theorem Remains.known (holds : Remains list held) (temporary : IsTemporary held) : some list = some held := by
  rcases holds with rfl | made
  · rfl
  · exact absurd temporary made.not_temporary

/-- A part binds no temporary. -/
theorem elementName_not_temporary (fresh : ∀ text ∈ part.texts, Fresh text) (index : Nat) :
    ¬ IsTemporary (elementName index part) := by
  cases part with
  | name name => exact (fresh name (List.mem_singleton_self _)).not_temporary
  | emptyList | string | formatString | tag => exact (isMade_madeName .element index).not_temporary

/-- The test of an element reads no temporary. -/
theorem partTest_reads (fresh : ∀ text ∈ part.texts, Fresh text) {subject : String} (plain : ¬ IsTemporary subject)
    {test : ElementTest} (tested : partTest? part subject = some test) {name : String} (temporary : IsTemporary name) :
    ¬ (test.subject = name ∨ test.anchor.Refers name) := by
  obtain ⟨anchor, anchored, rfl⟩ := Option.map_eq_some_iff.mp tested
  rintro (rfl | refers)
  · exact plain temporary
  · cases part with
    | name | emptyList => simp [anchor?] at anchored
    | tag | string =>
      obtain rfl := Option.some.inj anchored
      exact refers
    | formatString text =>
      obtain rfl := Option.some.inj anchored
      exact fresh text (List.mem_singleton_self _) name temporary refers

/-- The fields of a tag are bound calmly. -/
theorem calm_fieldBindings {pattern : TagPattern} (fresh : ∀ text ∈ pattern.fields, Fresh text) {subject : String}
    {known : Option String} (holds : IsTemporary subject → known = some subject) :
    ∀ statement ∈ fieldBindings pattern subject, Calm known statement ∧ statement.takesApart := by
  rw [fieldBindings]
  split
  · simp
  · refine List.forall_mem_singleton.mpr ⟨⟨?_, ?_, by simp⟩, rfl⟩
    · rintro name temporary rfl
      exact holds temporary
    · exact fun name member => (fresh name member).not_temporary

/-- What a part binds of its element is bound calmly. -/
theorem calm_partBindings (fresh : ∀ text ∈ part.texts, Fresh text) {subject : String} {known : Option String}
    (plain : ¬ IsTemporary subject) :
    ∀ statement ∈ partBindings part subject, Calm known statement ∧ statement.takesApart := by
  cases part with
  | tag pattern => exact calm_fieldBindings fresh fun temporary => absurd temporary plain
  | name | emptyList | string | formatString => simp [partBindings]

/-- The first elements of a list are bound calmly. -/
theorem calm_bindElements (holds : Remains list held) {names : List String} {rest : Option String}
    (plain : ∀ name ∈ names ++ rest.toList, ¬ IsTemporary name) :
    Calm (some list) (.bindElements names rest held) where
  reads name temporary refers := by
    obtain rfl : held = name := refers
    exact holds.known temporary
  declares := plain
  other := by simp

/-- The parts that match one element each bind no temporary. -/
theorem elementNames_not_temporary {parts : List ListPart} (fresh : ∀ part ∈ parts, ∀ text ∈ part.texts, Fresh text)
    (index : Nat) : ∀ name ∈ elementNames index parts, ¬ IsTemporary name := by
  induction parts generalizing index with
  | nil => simp [elementNames]
  | cons part rest step =>
    obtain ⟨first, others⟩ := List.forall_mem_cons.mp fresh
    exact List.forall_mem_cons.mpr ⟨elementName_not_temporary first index, step others (index + 1)⟩

/-- The tests of the elements read no temporary. -/
theorem elementTests_read {parts : List ListPart} (fresh : ∀ part ∈ parts, ∀ text ∈ part.texts, Fresh text)
    (index : Nat) {name : String} (temporary : IsTemporary name) :
    ¬ (Condition.elements (elementTests index parts)).Refers name := by
  induction parts generalizing index with
  | nil => simp [elementTests, Condition.Refers]
  | cons part rest step =>
    obtain ⟨first, others⟩ := List.forall_mem_cons.mp fresh
    rintro ⟨test, member, refers⟩
    rcases List.mem_append.mp member with here | later
    · exact partTest_reads first (elementName_not_temporary first index) (Option.mem_toList.mp here) temporary refers
    · exact step others (index + 1) ⟨test, later, refers⟩

/-- What the parts bind of their elements is bound calmly. -/
theorem calm_elementBindings {parts : List ListPart} (fresh : ∀ part ∈ parts, ∀ text ∈ part.texts, Fresh text)
    (index : Nat) {known : Option String} :
    ∀ statement ∈ elementBindings index parts, Calm known statement ∧ statement.takesApart := by
  induction parts generalizing index with
  | nil => simp [elementBindings]
  | cons part rest step =>
    obtain ⟨first, others⟩ := List.forall_mem_cons.mp fresh
    exact List.forall_mem_append.mpr
      ⟨calm_partBindings first (elementName_not_temporary first index), step others (index + 1)⟩

/-- Splitting off the last part keeps the texts fresh. -/
theorem fresh_splitLast {parts : List ListPart} (fresh : ∀ part ∈ parts, ∀ text ∈ part.texts, Fresh text) :
    (∀ part ∈ (splitLast parts).1, ∀ text ∈ part.texts, Fresh text) ∧
      ∀ name ∈ (splitLast parts).2, Fresh name := by
  rw [splitLast]
  split
  · exact ⟨fun part member => fresh part (List.dropLast_subset _ member), by simp⟩
  · next name last =>
    refine ⟨fun part member => fresh part (List.dropLast_subset _ member), fun other same => ?_⟩
    obtain rfl := Option.some.inj same
    exact fresh _ (List.mem_of_getLast? last) name (List.mem_singleton_self _)
  · exact ⟨fresh, by simp⟩

/-- One destructuring reads no temporary but the list. -/
theorem sound_positional {parts : List ListPart} (fresh : ∀ part ∈ parts, ∀ text ∈ part.texts, Fresh text)
    (sound : Sound none body) : Sound (some list) (positional list parts body) := by
  obtain ⟨freshParts, freshRest⟩ := fresh_splitLast fresh
  have bound : Sound (some list) (elementBindings 0 (splitLast parts).1 ++ body) :=
    (sound.widen _).behind (calm_elementBindings freshParts 0)
  have taken : Calm (some list) (.bindElements (elementNames 0 (splitLast parts).1) (splitLast parts).2 list) :=
    calm_bindElements (.inl rfl) (List.forall_mem_append.mpr ⟨elementNames_not_temporary freshParts 0,
      fun name member => (freshRest name (Option.mem_toList.mp member)).not_temporary⟩)
  have front : ∀ block, Sound (some list) block → Sound (some list)
      ((if (splitLast parts).1.isEmpty && (splitLast parts).2.isNone then []
        else [.bindElements (elementNames 0 (splitLast parts).1) (splitLast parts).2 list]) ++ block) := by
    intro block holds
    split
    · exact holds
    · exact holds.behind (List.forall_mem_singleton.mpr ⟨taken, rfl⟩)
  rw [positional]
  cases tests : elementTests 0 (splitLast parts).1 with
  | nil => exact front _ bound
  | cons test others =>
    refine front _ (bound.guarded fun name temporary refers => ?_)
    rw [← tests] at refers
    exact absurd refers (elementTests_read freshParts 0 temporary)

/-- One element off the front reads no temporary but the list. -/
theorem sound_peel (holds : Remains list held) (fresh : ∀ text ∈ part.texts, Fresh text) (isLast : Bool)
    {next : List Statement} (sound : Sound (some list) next) :
    Sound (some list) (peel index held part isLast next) := by
  have plain := elementName_not_temporary fresh index
  have taken : Calm (some list)
      (.bindElements [elementName index part] (if isLast then none else some (restName index)) held) := by
    refine calm_bindElements holds (List.forall_mem_append.mpr ⟨List.forall_mem_singleton.mpr plain, ?_⟩)
    cases isLast
    · exact List.forall_mem_singleton.mpr (isMade_madeName .rest index).not_temporary
    · simp
  have front : ∀ block, Sound (some list) block → Sound (some list)
      (.bindElements [elementName index part] (if isLast then none else some (restName index)) held :: block) :=
    fun block holds => holds.behind (List.forall_mem_singleton.mpr ⟨taken, rfl⟩)
  have guarded : ∀ statements, Sound (some list) statements →
      Sound (some list) (if index == 0 then statements else [.guarded (.notEmpty held) statements]) := by
    intro statements sound
    split
    · exact sound
    · refine sound.guarded fun name temporary refers => ?_
      obtain rfl : held = name := refers
      exact holds.known temporary
  rw [peel]
  refine guarded _ ?_
  cases tested : partTest? part (elementName index part) with
  | none => exact front _ sound
  | some test =>
    refine front _ (Sound.guarded ?_ fun name temporary refers => ?_)
    · exact sound.behind (calm_partBindings fresh plain)
    · obtain ⟨other, member, refers⟩ := refers
      rw [List.mem_singleton.mp member] at refers
      exact absurd refers (partTest_reads fresh plain tested temporary)

/-- A search reads no temporary but the list. -/
theorem sound_gapSearch (holds : Remains list held) {gap : String} (freshGap : Fresh gap)
    (fresh : ∀ text ∈ part.texts, Fresh text) {anchor : Anchor} (anchored : anchor? part = some anchor) (isLast : Bool)
    {next : List Statement} (sound : Sound (some list) next) :
    Sound (some list) (gapSearch index gap held part anchor isLast next) := by
  have found : ¬ IsTemporary (foundName index) := (isMade_madeName .found index).not_temporary
  have element : ¬ IsTemporary ("_" ++ toString index) := (isMade_madeName .element index).not_temporary
  have tested : partTest? part ("_" ++ toString index) = some ⟨"_" ++ toString index, anchor⟩ := by
    rw [partTest?, anchored]
    rfl
  -- every statement of the block reads what is left of the list at the index found
  have known : ∀ name, IsTemporary name → held = name ∨ foundName index = name → some list = some name := by
    rintro name temporary (rfl | rfl)
    · exact holds.known temporary
    · exact absurd temporary found
  have before : Calm (some list) (.bindBefore gap held (foundName index)) :=
    ⟨known, List.forall_mem_singleton.mpr freshGap.not_temporary, by simp⟩
  have at_ : Calm (some list) (.bindElementAt ("_" ++ toString index) held (foundName index)) :=
    ⟨known, List.forall_mem_singleton.mpr element, by simp⟩
  have after : Calm (some list) (.bindAfter (restName index) held (foundName index)) :=
    ⟨known, List.forall_mem_singleton.mpr (isMade_madeName .rest index).not_temporary, by simp⟩
  have search : Calm (some list) (.search (foundName index) (cursorName index) held anchor) := by
    refine ⟨?_, List.forall_mem_singleton.mpr found, by simp⟩
    rintro name temporary (rfl | refers)
    · exact holds.known temporary
    · exact absurd (.inr refers) (partTest_reads fresh element tested temporary)
  have rest : Sound (some list)
      ((if isLast then [] else [.bindAfter (restName index) held (foundName index)]) ++ next) := by
    cases isLast with
    | true => exact sound
    | false => exact sound.behind (List.forall_mem_singleton.mpr ⟨after, rfl⟩)
  have bound : Sound (some list)
      ((if (partBindings part ("_" ++ toString index)).isEmpty then []
        else .bindElementAt ("_" ++ toString index) held (foundName index) ::
          partBindings part ("_" ++ toString index)) ++
        ((if isLast then [] else [.bindAfter (restName index) held (foundName index)]) ++ next)) := by
    split
    · exact rest
    · exact rest.behind (List.forall_mem_cons.mpr ⟨⟨at_, rfl⟩, calm_partBindings fresh element⟩)
  have inner : Sound (some list)
      (.bindBefore gap held (foundName index) ::
        (if (partBindings part ("_" ++ toString index)).isEmpty then []
        else .bindElementAt ("_" ++ toString index) held (foundName index) ::
          partBindings part ("_" ++ toString index)) ++
        (if isLast then [] else [.bindAfter (restName index) held (foundName index)]) ++ next) := by
    have whole := bound.behind (List.forall_mem_singleton.mpr ⟨before, rfl⟩)
    simpa only [List.singleton_append, List.cons_append, List.nil_append, List.append_assoc] using whole
  refine (inner.guarded fun name temporary refers => ?_).behind (List.forall_mem_singleton.mpr ⟨search, rfl⟩)
  exact known name temporary (.inr refers)

/-- The parts of a pattern read no temporary but the list. -/
theorem sound_sequential {parts : List ListPart} (fresh : ∀ part ∈ parts, ∀ text ∈ part.texts, Fresh text)
    (sound : Sound none body) (index : Nat) {held : String} (holds : Remains list held) :
    Sound (some list) (sequential index held body parts) := by
  fun_induction sequential index held body parts with
  | case1 => exact sound.widen _
  | case2 index held rest =>
    refine (sound.widen _).guarded fun name temporary refers => ?_
    obtain rfl : held = name := refers
    exact holds.known temporary
  | case3 index held name =>
    have bound : Calm (some list) (.bindName name held) := by
      refine ⟨?_, List.forall_mem_singleton.mpr ?_, by simp⟩
      · rintro other temporary rfl
        exact holds.known temporary
      · exact (fresh (.name name) List.mem_cons_self name (List.mem_singleton_self _)).not_temporary
    exact (sound.widen _).behind (List.forall_mem_singleton.mpr ⟨bound, rfl⟩)
  | case4 held name part rest index anchor anchored step =>
    obtain ⟨first, second, others⟩ := by simpa only [List.forall_mem_cons] using fresh
    exact sound_gapSearch holds (first name (List.mem_singleton_self _)) second anchored _
      (step others (remains_rest list _))
  | case5 held name part rest index _ step =>
    obtain ⟨first, others⟩ := List.forall_mem_cons.mp fresh
    exact sound_peel holds first false (step others (remains_rest list index))
  | case6 index held part rest _ _ _ step =>
    obtain ⟨first, others⟩ := List.forall_mem_cons.mp fresh
    exact sound_peel holds first rest.isEmpty (step others (remains_rest list index))

/-- **Taking a list apart reads no temporary but the list.** -/
theorem sound_listPattern {parts : List ListPart} (fresh : ∀ part ∈ parts, ∀ text ∈ part.texts, Fresh text)
    (sound : Sound none body) : Sound (some list) (listPattern list parts body) := by
  have inner : Sound (some list)
      (if gapCount parts == 0 || onlyFinalGap parts then positional list parts body
        else sequential 0 list body parts) := by
    split
    · exact sound_positional fresh sound
    · exact sound_sequential fresh sound 0 (.inl rfl)
  refine inner.guarded fun name temporary refers => ?_
  split at refers
  · exact congrArg some refers
  · exact congrArg some refers

end ListPatterns

/-! ## Cases -/

/-- What stands in the case of a switch reads no temporary but the one looked at. -/
theorem sound_switchCase (name : String) {pattern : Pattern} {body : List Statement}
    (fresh : ∀ text ∈ pattern.texts, Fresh text) (sound : Sound none body) :
    Sound (some name) (switchCase name pattern body).body := by
  cases pattern with
  | string | formatString | otherwise => exact sound.widen _
  | tag shape =>
    exact (sound.widen _).behind (calm_fieldBindings fresh fun _ => rfl)
  | emptyList => exact (sound.widen _).guarded fun _ _ refers => congrArg some refers
  | list parts =>
    exact sound_listPattern (fun part member text inside => fresh text (List.mem_flatMap.mpr ⟨part, member, inside⟩))
      sound

/-- The label of a switch reads no temporary but the one looked at. -/
theorem label_reads {name other : String} {pattern : Pattern} {body : List Statement}
    (fresh : ∀ text ∈ pattern.texts, Fresh text) (temporary : IsTemporary other)
    (refers : (switchCase name pattern body).label.Refers other) : other = name := by
  cases pattern with
  | tag | string | emptyList | otherwise => exact refers.elim
  | formatString text => exact absurd refers (fresh text (List.mem_singleton_self _) other temporary)
  | list parts => exact refers.symm

/-- A term reads no temporary from outside, and its blocks are orderly. -/
structure Term.Sound (value : Term) : Prop where
  closed : ∀ name, IsTemporary name → ¬ value.Refers name
  inner : value.AllBlocks Orderly

/-- **A case on a sound value with sound bodies is sound**, under any temporary. -/
theorem sound_caseStatements {name : String} (temporary : IsTemporary name) {value : Term} (sound : value.Sound)
    {branches : List (Pattern × List Statement)} (fresh : ∀ branch ∈ branches, ∀ text ∈ branch.1.texts, Fresh text)
    (bodies : ∀ branch ∈ branches, Sound none branch.2) : Sound none (caseStatements name value branches) where
  shaped := by
    refine .case [] name value _ _ (by simp) (by simp) temporary sound.closed fun other isTemporary refers => ?_
    rw [Statement.Refers, SwitchCase.referEach] at refers
    rcases refers with subject | ⟨choice, member, refers⟩
    · rw [subjectOf] at subject
      split at subject
      · exact subject.symm
      · split at subject <;> exact subject.symm
    · obtain ⟨branch, among, rfl⟩ := List.mem_map.mp member
      rcases refers with label | ⟨outer, refers⟩
      · exact label_reads (fresh branch among) isTemporary label
      · have known := (sound_switchCase name (fresh branch among) (bodies branch among)).shaped.reads
          isTemporary outer refers
        exact (Option.some.inj known).symm
  inner := by
    refine List.forall_mem_cons.mpr ⟨sound.inner, List.forall_mem_singleton.mpr ?_⟩
    rw [Statement.AllBlocks, SwitchCase.allBlocksEach]
    intro choice member
    obtain ⟨branch, among, rfl⟩ := List.mem_map.mp member
    have block := sound_switchCase name (fresh branch among) (bodies branch among)
    exact ⟨block.shaped.orderly, block.inner⟩

/-! ## Lowering -/

/-- A sound block reads no temporary from outside. -/
theorem Sound.outside {body : List Statement} (sound : Sound none body) {name : String} (temporary : IsTemporary name) :
    ¬ (name ∉ boundIn body ∧ Statement.ReferEach name body) := fun refers =>
  absurd (sound.shaped.reads temporary refers.1 (Statement.referEach.mp refers.2)) (by simp)

/-- All blocks in and at a sound block are orderly. -/
theorem Sound.blocks {body : List Statement} (sound : Sound none body) :
    Orderly body ∧ Statement.AllBlocksEach Orderly body :=
  ⟨sound.shaped.orderly, Statement.allBlocksEach.mpr sound.inner⟩

/-! ### Terms -/

namespace Term

theorem Sound.each {items : List Term} (sound : ∀ item ∈ items, item.Sound) :
    (∀ name, IsTemporary name → ¬ Term.ReferEach name items) ∧ Term.AllBlocksEach Orderly items := by
  constructor
  · intro name temporary refers
    obtain ⟨item, member, refers⟩ := Term.referEach.mp refers
    exact (sound item member).closed name temporary refers
  · exact Term.allBlocksEach.mpr fun item member => (sound item member).inner

theorem Sound.fields {fields : List TermField} (sound : ∀ field ∈ fields, field.value.Sound) :
    (∀ name, IsTemporary name → ¬ TermField.ReferEach name fields) ∧ TermField.AllBlocksEach Orderly fields := by
  constructor
  · intro name temporary refers
    obtain ⟨field, member, refers⟩ := TermField.referEach.mp refers
    exact (sound field member).closed name temporary refers
  · exact TermField.allBlocksEach.mpr fun field member => (sound field member).inner

theorem Sound.array {items : List Term} (sound : ∀ item ∈ items, item.Sound) : (Term.array items).Sound :=
  ⟨(Sound.each sound).1, (Sound.each sound).2⟩

theorem Sound.span {first last : String} (freshFirst : Fresh first) (freshLast : Fresh last) :
    (Term.span first last).Sound where
  closed name temporary := fun refers => refers.elim (freshFirst name temporary) (freshLast name temporary)
  inner := trivial

/-- The base of a record mentions no temporary. -/
theorem base_fresh {base : Option String} (fresh : ∀ text ∈ base.toList, Fresh text) {name : String}
    (temporary : IsTemporary name) : ¬ ∃ text ∈ base, Mentions text name := by
  rintro ⟨text, same, mentions⟩
  exact fresh text (Option.mem_toList.mpr same) name temporary mentions

theorem Sound.record {base : Option String} {fields : List TermField} (fresh : ∀ text ∈ base.toList, Fresh text)
    (sound : ∀ field ∈ fields, field.value.Sound) : (Term.record base fields).Sound where
  closed name temporary := fun refers =>
    refers.elim (base_fresh fresh temporary) ((Sound.fields sound).1 name temporary)
  inner := (Sound.fields sound).2

theorem Sound.construct {tag : String} {base : Option String} {fields : List TermField} (freshTag : Fresh tag)
    (fresh : ∀ text ∈ base.toList, Fresh text) (sound : ∀ field ∈ fields, field.value.Sound) :
    (Term.construct tag base fields).Sound where
  closed name temporary := fun refers =>
    refers.elim (freshTag name temporary) ((Sound.record fresh sound).closed name temporary)
  inner := (Sound.fields sound).2

theorem Sound.conditional {test whenTrue whenFalse : Term} (first : test.Sound) (yes : whenTrue.Sound)
    (no : whenFalse.Sound) : (Term.conditional test whenTrue whenFalse).Sound where
  closed name temporary := fun refers =>
    refers.elim (first.closed name temporary) fun refers =>
      refers.elim (yes.closed name temporary) (no.closed name temporary)
  inner := ⟨first.inner, yes.inner, no.inner⟩

theorem Sound.application {function argument : Term} (first : function.Sound) (second : argument.Sound) :
    (Term.application function argument).Sound where
  closed name temporary := fun refers => refers.elim (first.closed name temporary) (second.closed name temporary)
  inner := ⟨first.inner, second.inner⟩

theorem Sound.operationTerm {left right : Term} (operator : BinaryOperator) (first : left.Sound)
    (second : right.Sound) : (operationTerm operator left right).Sound := by
  have closed : ∀ name, IsTemporary name → ¬ (left.Refers name ∨ right.Refers name) := fun name temporary refers =>
    refers.elim (first.closed name temporary) (second.closed name temporary)
  have inner : left.AllBlocks Orderly ∧ right.AllBlocks Orderly := ⟨first.inner, second.inner⟩
  unfold Ecma.operationTerm
  split <;> exact ⟨closed, inner⟩

theorem Sound.call {function : String} {arguments : List Term} (fresh : Fresh function)
    (sound : ∀ argument ∈ arguments, argument.Sound) : (Term.call function arguments).Sound where
  closed name temporary := fun refers =>
    refers.elim (fresh name temporary) ((Sound.each sound).1 name temporary)
  inner := (Sound.each sound).2

theorem Sound.function {parameters : List String} {body : List Statement} (sound : Ecma.Sound none body) :
    (Term.function parameters body).Sound where
  closed _ temporary := fun refers => sound.outside temporary refers.2
  inner := sound.blocks

theorem Sound.functionCall {parameters : List String} {body : List Statement} {arguments : List Term}
    (sound : Ecma.Sound none body) (others : ∀ argument ∈ arguments, argument.Sound) :
    (Term.functionCall parameters body arguments).Sound where
  closed name temporary := fun refers =>
    refers.elim (fun refers => sound.outside temporary refers.2) ((Sound.each others).1 name temporary)
  inner := ⟨sound.blocks, (Sound.each others).2⟩

theorem Sound.member {path : List String} {value : Term} (fresh : ∀ text ∈ path, Fresh text) (sound : value.Sound) :
    (Term.member path value).Sound where
  closed name temporary := by
    rintro (⟨text, member, mentions⟩ | refers)
    · exact fresh text member name temporary mentions
    · exact sound.closed name temporary refers
  inner := sound.inner

/-- Statements may be run where a term is needed. -/
theorem Sound.immediate {body : List Statement} (sound : Ecma.Sound none body) : (Term.immediate body).Sound where
  closed _ temporary := sound.outside temporary
  inner := sound.blocks

end Term

/-! ### Bodies -/

/-- A single statement that declares nothing and reads no temporary from outside is sound. -/
theorem sound_single {statement : Statement} (reads : ∀ name, IsTemporary name → ¬ statement.Refers name)
    (silent : statement.binds = []) (inner : statement.AllBlocks Orderly) : Sound none [statement] where
  shaped := by
    refine .plain _ (List.forall_mem_singleton.mpr ⟨fun name temporary refers => absurd refers (reads name temporary),
      by simp [silent], ?_⟩)
    rintro name value rfl
    simp [Statement.binds] at silent
  inner := List.forall_mem_singleton.mpr inner

/-- A sound value may be returned. -/
theorem sound_returning {value : Term} (sound : value.Sound) : Sound none [.returning value] :=
  sound_single sound.closed rfl sound.inner

/-- The two ways of a conditional may be blocks. -/
theorem sound_choose {test : Term} {whenTrue whenFalse : List Statement} (first : test.Sound)
    (yes : Sound none whenTrue) (no : Sound none whenFalse) : Sound none [.choose test whenTrue whenFalse] := by
  refine sound_single (fun name temporary refers => ?_) rfl ⟨first.inner, yes.blocks, no.blocks⟩
  rcases refers with refers | refers | refers
  · exact first.closed name temporary refers
  · exact yes.outside temporary refers
  · exact no.outside temporary refers

/-- The declaration reads no temporary from outside, and its blocks are orderly. -/
structure Declaration.Sound (declaration : Declaration) : Prop where
  closed : ∀ name, IsTemporary name → ¬ declaration.Refers name
  inner : declaration.AllBlocks Orderly

theorem Declaration.Sound.verbatim (text : String) : (Declaration.verbatim text).Sound :=
  ⟨fun _ _ refers => refers, trivial⟩

theorem Declaration.Sound.function {head : String} {body : List Statement} (sound : Ecma.Sound none body) :
    (Declaration.function head body).Sound :=
  ⟨fun _ temporary => sound.outside temporary, sound.blocks⟩

theorem Declaration.Sound.constant {binder : String} {value : Term} (sound : value.Sound) :
    (Declaration.constant binder value).Sound :=
  ⟨sound.closed, sound.inner⟩

/-- Local definitions stand in front of a sound body. -/
theorem sound_body {locals body : List Statement}
    (declared : ∀ statement ∈ locals, ∃ declaration, statement = .declaring declaration ∧ declaration.Sound)
    (sound : Sound none body) : Sound none (locals ++ body) := by
  have calm : ∀ statement ∈ locals, Calm none statement := by
    intro statement member
    obtain ⟨declaration, rfl, local_⟩ := declared statement member
    exact ⟨fun name temporary refers => absurd refers (local_.closed name temporary), by
      simp [Statement.binds, Statement.declares], by simp⟩
  refine ⟨sound.shaped.behind calm (fun statement member other temporary refers => ?_),
    List.forall_mem_append.mpr ⟨fun statement member => ?_, sound.inner⟩⟩
  · exact absurd ((calm statement member).reads other temporary refers) (by simp)
  · obtain ⟨declaration, rfl, local_⟩ := declared statement member
    exact local_.inner

/-- Nothing that is lowered reads or declares anything out of order. -/
def soundness : Assertion where
  term := Term.Sound
  body := Sound none
  locals locals := ∀ statement ∈ locals, ∃ declaration, statement = .declaring declaration ∧ declaration.Sound
  declaration _ := Declaration.Sound

/-- **What is lowered reads no temporary from outside, and its blocks are orderly.** -/
theorem closed_sound (dialect : Dialect) : soundness.Closed dialect freshTexts where
  value fresh := ⟨fresh _ (List.mem_singleton_self _), trivial⟩
  string _ := ⟨fun _ _ refers => refers, trivial⟩
  formatString fresh := ⟨fresh _ (List.mem_singleton_self _), trivial⟩
  list := Term.Sound.array
  range fresh := .span (fresh _ List.mem_cons_self) (fresh _ (List.mem_cons_of_mem _ (List.mem_singleton_self _)))
  record fresh _ := .record fresh
  construct fresh _ := .construct (List.forall_mem_cons.mp fresh).1 (List.forall_mem_cons.mp fresh).2
  conditional := .conditional
  choose := sound_choose
  caseOf temporary value branches := sound_caseStatements temporary value (fun branch member => (branches branch member).1)
    fun branch member => (branches branch member).2
  application := .application
  operation := .operationTerm _
  call fresh := .call (fresh _ (List.mem_singleton_self _))
  lambda _ := .function
  lambdaCall _ := .functionCall
  referred fresh := (List.forall_mem_append.mp fresh).2
  reference fresh := .member (List.forall_mem_append.mp fresh).1
  returning := sound_returning
  immediate := .immediate
  append := sound_body
  nil := List.forall_mem_nil _
  cons declared rest := List.forall_mem_cons.mpr ⟨⟨_, rfl, declared⟩, rest⟩
  function _ := .function
  constant _ := .constant
  imports _ := .verbatim _
  exports _ := .verbatim _
  union _ := .verbatim _
  typeAlias _ := .verbatim _
  comment := .verbatim _
  multilineComment := .verbatim _

end Ecma

/-! ## Pipes as application -/

/-- What an expression mentions itself does not depend on what stands below its root. -/
theorem shallow_freshTexts : freshTexts.Shallow where
  rooted rooted fresh := by
    cases rooted with
    | record names =>
      rename_i literal other
      cases literal
      cases other
      obtain rfl := names.1
      exact fresh
    | construct tag names =>
      rename_i literal other
      cases literal
      cases other
      obtain rfl := names.1
      exact fresh
    | list | conditional | caseOf | binary | applied | call | lambda | lambdaApplied | lambdaCall => exact fresh
  value fresh := (List.forall_mem_append.mp fresh).2
  reference fresh value := List.forall_mem_append.mpr ⟨(List.forall_mem_append.mp fresh).1, value⟩
  body _ := trivial
  function _ _ := trivial
  constant _ _ := trivial

/-- Writing pipes as application mentions no more temporaries. -/
theorem fresh_directBlocks (blocks : List Block) (fresh : ∀ block ∈ blocks, block.Everywhere freshTexts) :
    ∀ block ∈ Block.directEach blocks, block.Everywhere freshTexts :=
  everywhere_directBlocks shallow_freshTexts blocks fresh

/-! ## Modules -/

namespace Ecma

/-- The declarations of blocks declare nothing out of order. -/
theorem sound_declarations (dialect : Dialect) (blocks : List Block)
    (fresh : ∀ block ∈ blocks, block.Everywhere freshTexts) :
    Gives (declarations dialect blocks) fun lowered => ∀ declaration ∈ lowered, declaration.Sound := by
  induction blocks with
  | nil =>
    rw [declarations]
    exact .pure (by simp)
  | cons block rest step =>
    obtain ⟨first, others⟩ := List.forall_mem_cons.mp fresh
    rw [declarations]
    refine ((closed_sound dialect).lowerBlock block first).bind fun _ first => ?_
    exact (step others).bind fun _ others => .pure (List.forall_mem_cons.mpr ⟨first, others⟩)

/-- **Every block of a generated module declares its temporaries once, and in front of all that refers to them**, unless a
value is taken apart in it under a temporary that the case at its end declares anew. -/
theorem orderly_moduleDeclarations (dialect : Dialect) (module : Module) (fresh : module.Everywhere freshTexts) :
    ∀ declaration ∈ moduleDeclarations dialect module, declaration.AllBlocks fun block =>
      DeclaredOnce block ∧ (InOrder block ↔ ¬ Reexamined block) := by
  intro declaration member
  rcases List.mem_append.mp member with exported | declared
  · obtain ⟨names, -, rfl⟩ := Option.map_eq_some_iff.mp (Option.mem_toList.mp exported)
    exact trivial
  · have given : TempNames.Given {} := by simp [TempNames.Given, TempNames.taken]
    have lowered := sound_declarations dialect (Block.directEach module.body) (fresh_directBlocks _ fresh) {} given
    exact (lowered.1 declaration declared).inner

/-! ## Two cases, one inside the other -/

/-- A text whose words do not start with an underscore mentions no temporary. -/
theorem fresh_of_words {text : String}
    (plain : ∀ word ∈ text.toList.splitOnP fun c => !isNameCharacter c, word.head? ≠ some '_') : Fresh text := by
  rintro name ⟨source, count, rfl⟩ mentions
  refine plain _ mentions ?_
  cases count <;> simp [TempNames.candidate]

/-- A case in the branch that takes the value of another apart: `case x of A { a } -> case inner of default -> a`. -/
def nestedCases (inner : String) : Module :=
  ⟨"Main", [.function ⟨"f", .any, [.named "x" .any], ⟨[], .caseOf (.value "x")
    [⟨.tag ⟨"A", ["a"]⟩, ⟨[], .caseOf (.value inner) [⟨.otherwise, ⟨[], .value "a"⟩⟩]⟩⟩]⟩⟩], []⟩

/-- The blocks of the two cases keep to the order, where the inner case looks at a field of the outer one. -/
theorem orderly_moduleDeclarations_nested :
    (nestedCases "a").Everywhere freshTexts ∧
      ∀ declaration ∈ moduleDeclarations .javaScript (nestedCases "a"), declaration.AllBlocks fun block =>
        DeclaredOnce block ∧ (InOrder block ↔ ¬ Reexamined block) := by
  have x : Fresh "x" := fresh_of_words (by decide)
  have a : Fresh "a" := fresh_of_words (by decide)
  have fresh : (nestedCases "a").Everywhere freshTexts := by
    simp [nestedCases, Module.Everywhere, Block.Everywhere, Body.Everywhere, Expression.Inside, Block.EverywhereEach,
      Branch.EverywhereEach, freshTexts, Expression.texts, Pattern.texts, x, a]
  exact ⟨fresh, orderly_moduleDeclarations .javaScript (nestedCases "a") fresh⟩

/-- **A case on the value that the branch around it has taken apart gets out of order**: the fields are read from the
temporary in front of its declaration in the same block. -/
theorem repeated_case_reads_early :
    ∃ declaration ∈ moduleDeclarations .javaScript (nestedCases "x"), ¬ declaration.AllBlocks InOrder := by
  have direct : Block.directEach (nestedCases "x").body = (nestedCases "x").body := by
    simp [nestedCases, Block.directEach, Block.direct, Body.direct, Expression.direct, Branch.directEach,
      Expression.flattenPipes]
  have lowered : moduleDeclarations .javaScript (nestedCases "x") =
      [.function "function f(x)"
        [.temporary "_res120" (.verbatim "x"),
          .switch (.kindOf "_res120")
            [⟨.quoted "A",
              [.bindFields ["a"] "_res120", .temporary "_res120" (.verbatim "x"),
                .switch (.kindOf "_res120") [⟨.otherwise, [.returning (.verbatim "a")]⟩]]⟩]]] := by
    rw [moduleDeclarations, direct]
    rfl
  rw [lowered]
  refine ⟨_, List.mem_singleton_self _, fun all => ?_⟩
  obtain ⟨-, -, ⟨branch, -⟩, -⟩ := all
  exact (branch.1 [.bindFields ["a"] "_res120"] "_res120" (.verbatim "x") _ rfl).2 _ (List.mem_singleton_self _) rfl

end Ecma

end DerwLang
