/-
**Blocks and the temporaries they declare.**

A case looks at its value under a temporary, which the block that the case ends declares. Each block is a scope of its
own: a temporary can be read behind its declaration only, and in the blocks further in that do not declare it anew.

* `Term.Refers`, `Statement.Refers`: a name is read, and no declaration further in hides it;
* `Term.AllBlocks`: a property of all blocks that stand in a term;
* `DeclaredOnce`, `InOrder`: what a block has to keep to;
* `Reexamined`: a value is taken apart under a temporary that its block declares behind that;
* `Shaped.orderly`: the blocks that lowering makes keep to it unless they are `Reexamined`.
-/

import DerwLang.Proofs.ListPattern.Execution
import DerwLang.Proofs.ListPattern.MadeNames

namespace DerwLang.Ecma

/-! ## Names in texts -/

/-- The character may stand in a name. -/
def isNameCharacter (c : Char) : Bool :=
  c.isAlphanum || c == '_' || c == '$'

/-- The name is one of the words of the text. -/
def Mentions (text name : String) : Prop :=
  name.toList ∈ text.toList.splitOnP fun c => !isNameCharacter c

instance (text name : String) : Decidable (Mentions text name) :=
  inferInstanceAs (Decidable (_ ∈ _))

/-- The name is one that the value of some case may get. -/
def IsTemporary (name : String) : Prop :=
  ∃ text count, name = TempNames.candidate text count

/-- The text mentions no temporary. -/
def Fresh (text : String) : Prop :=
  ∀ name, IsTemporary name → ¬ Mentions text name

/-- A text without a boundary between words is one word. -/
theorem splitOnP_word {word : List Char} (whole : ∀ c ∈ word, isNameCharacter c = true) :
    word.splitOnP (fun c => !isNameCharacter c) = [word] := by
  induction word with
  | nil => rfl
  | cons c rest step =>
    obtain ⟨first, others⟩ := List.forall_mem_cons.mp whole
    rw [List.splitOnP_cons_eq_if_modifyHead, step others]
    simp [first]

theorem isNameCharacter_digits (number : Nat) : ∀ c ∈ (toString number).toList, isNameCharacter c = true := by
  intro c member
  have digit : c.isDigit = true := by
    rw [show toString number = number.repr from rfl, Nat.toList_repr] at member
    exact Nat.isDigit_of_mem_toDigits (by decide) (by decide) member
  simp [isNameCharacter, Char.isAlphanum, digit]

/-- A temporary is a single word. -/
theorem IsTemporary.word {name : String} (temporary : IsTemporary name) :
    ∀ c ∈ name.toList, isNameCharacter c = true := by
  obtain ⟨text, count, rfl⟩ := temporary
  have start : ∀ c ∈ "_res".toList, isNameCharacter c = true := List.all_eq_true.mp (by decide)
  have line : ∀ c ∈ "_".toList, isNameCharacter c = true := List.all_eq_true.mp (by decide)
  cases count with
  | zero =>
    simp only [TempNames.candidate, String.toList_append, List.forall_mem_append]
    exact ⟨start, isNameCharacter_digits _⟩
  | succ count =>
    simp only [TempNames.candidate, String.toList_append, List.forall_mem_append]
    exact ⟨⟨⟨start, isNameCharacter_digits _⟩, line⟩, isNameCharacter_digits _⟩

/-- A text that mentions no temporary is none. -/
theorem Fresh.not_temporary {text : String} (fresh : Fresh text) : ¬ IsTemporary text := by
  intro temporary
  refine fresh text temporary ?_
  rw [Mentions, splitOnP_word temporary.word]
  exact List.mem_singleton_self _

/-- The names that taking a list apart makes are no temporaries. -/
theorem IsMade.not_temporary {name : String} (made : IsMade name) : ¬ IsTemporary name := by
  rintro ⟨text, count, rfl⟩
  exact candidate_not_made text count made

/-! ## What refers to a name -/

/-- The names that a statement declares in its block, the temporary of a case among them. What a local definition
declares is a name of the source. -/
def Statement.binds : Statement → List String
  | .temporary name _ => [name]
  | statement => statement.declares

/-- The names that a block declares. -/
def boundIn (block : List Statement) : List String :=
  block.flatMap Statement.binds

/-- The anchor reads the name. -/
def Anchor.Refers (name : String) : Anchor → Prop
  | .tag _ | .quoted _ => False
  | .template text => Mentions text name

/-- The condition reads the name. -/
def Condition.Refers (name : String) : Condition → Prop
  | .lengthIs list _ | .lengthAtLeast list _ | .notEmpty list => list = name
  | .isFound index => index = name
  | .elements tests => ∃ test ∈ tests, test.subject = name ∨ test.anchor.Refers name

/-- The subject of a switch reads the name. -/
def Subject.Refers (name : String) : Subject → Prop
  | .value subject | .lengthOf subject | .kindOf subject => subject = name

/-- The label reads the name. -/
def Label.Refers (name : String) : Label → Prop
  | .quoted _ | .zero | .otherwise => False
  | .template text => Mentions text name
  | .lengthOf list => list = name

mutual

/-- The term reads the name from outside. -/
def Term.Refers (name : String) : Term → Prop
  | .verbatim text => Mentions text name
  | .quoted _ => False
  | .template text => Mentions text name
  | .array items => Term.ReferEach name items
  | .span first last => Mentions first name ∨ Mentions last name
  | .record base fields => (∃ text ∈ base, Mentions text name) ∨ TermField.ReferEach name fields
  | .conditional test whenTrue whenFalse => test.Refers name ∨ whenTrue.Refers name ∨ whenFalse.Refers name
  | .operation _ left right => left.Refers name ∨ right.Refers name
  | .prepend head tail => head.Refers name ∨ tail.Refers name
  | .call function arguments => Mentions function name ∨ Term.ReferEach name arguments
  | .application function argument => function.Refers name ∨ argument.Refers name
  | .function parameters body => name ∉ parameters ∧ name ∉ boundIn body ∧ Statement.ReferEach name body
  | .functionCall parameters body arguments =>
    (name ∉ parameters ∧ name ∉ boundIn body ∧ Statement.ReferEach name body) ∨ Term.ReferEach name arguments
  | .construct tag base fields =>
    Mentions tag name ∨ (∃ text ∈ base, Mentions text name) ∨ TermField.ReferEach name fields
  | .member path value => (∃ text ∈ path, Mentions text name) ∨ value.Refers name
  | .immediate body => name ∉ boundIn body ∧ Statement.ReferEach name body

/-- One of the terms reads the name. -/
def Term.ReferEach (name : String) : List Term → Prop
  | [] => False
  | item :: rest => item.Refers name ∨ Term.ReferEach name rest

/-- One of the fields reads the name. -/
def TermField.ReferEach (name : String) : List TermField → Prop
  | [] => False
  | ⟨_, value⟩ :: rest => value.Refers name ∨ TermField.ReferEach name rest

/-- The statement reads the name from outside. -/
def Statement.Refers (name : String) : Statement → Prop
  | .returning value => value.Refers name
  | .declaring declaration => declaration.Refers name
  | .temporary _ value => value.Refers name
  | .bindName _ list => list = name
  | .bindElements _ _ list => list = name
  | .bindFields _ subject => subject = name
  | .bindElementAt _ list index | .bindBefore _ list index | .bindAfter _ list index => list = name ∨ index = name
  | .search _ _ list anchor => list = name ∨ anchor.Refers name
  | .guarded condition body => condition.Refers name ∨ name ∉ boundIn body ∧ Statement.ReferEach name body
  | .choose test whenTrue whenFalse =>
    test.Refers name ∨ (name ∉ boundIn whenTrue ∧ Statement.ReferEach name whenTrue) ∨
      name ∉ boundIn whenFalse ∧ Statement.ReferEach name whenFalse
  | .switch subject cases => subject.Refers name ∨ SwitchCase.ReferEach name cases

/-- One of the statements reads the name from outside. -/
def Statement.ReferEach (name : String) : List Statement → Prop
  | [] => False
  | statement :: rest => statement.Refers name ∨ Statement.ReferEach name rest

/-- One of the cases of a switch reads the name from outside. -/
def SwitchCase.ReferEach (name : String) : List SwitchCase → Prop
  | [] => False
  | ⟨label, body⟩ :: rest =>
    (label.Refers name ∨ name ∉ boundIn body ∧ Statement.ReferEach name body) ∨ SwitchCase.ReferEach name rest

/-- The declaration reads the name from outside. Declarations without expressions read no value. -/
def Declaration.Refers (name : String) : Declaration → Prop
  | .function _ body => name ∉ boundIn body ∧ Statement.ReferEach name body
  | .constant _ value => value.Refers name
  | .verbatim _ => False

end

/-! ## All blocks -/

mutual

/-- The property holds of all blocks in the term. -/
def Term.AllBlocks (property : List Statement → Prop) : Term → Prop
  | .verbatim _ | .quoted _ | .template _ | .span _ _ => True
  | .array items => Term.AllBlocksEach property items
  | .record _ fields => TermField.AllBlocksEach property fields
  | .conditional test whenTrue whenFalse =>
    test.AllBlocks property ∧ whenTrue.AllBlocks property ∧ whenFalse.AllBlocks property
  | .operation _ left right => left.AllBlocks property ∧ right.AllBlocks property
  | .prepend head tail => head.AllBlocks property ∧ tail.AllBlocks property
  | .call _ arguments => Term.AllBlocksEach property arguments
  | .application function argument => function.AllBlocks property ∧ argument.AllBlocks property
  | .function _ body => property body ∧ Statement.AllBlocksEach property body
  | .functionCall _ body arguments =>
    (property body ∧ Statement.AllBlocksEach property body) ∧ Term.AllBlocksEach property arguments
  | .construct _ _ fields => TermField.AllBlocksEach property fields
  | .member _ value => value.AllBlocks property
  | .immediate body => property body ∧ Statement.AllBlocksEach property body

/-- The property holds of all blocks in the terms. -/
def Term.AllBlocksEach (property : List Statement → Prop) : List Term → Prop
  | [] => True
  | item :: rest => item.AllBlocks property ∧ Term.AllBlocksEach property rest

/-- The property holds of all blocks in the fields. -/
def TermField.AllBlocksEach (property : List Statement → Prop) : List TermField → Prop
  | [] => True
  | ⟨_, value⟩ :: rest => value.AllBlocks property ∧ TermField.AllBlocksEach property rest

/-- The property holds of all blocks in the statement. -/
def Statement.AllBlocks (property : List Statement → Prop) : Statement → Prop
  | .returning value | .temporary _ value => value.AllBlocks property
  | .declaring declaration => declaration.AllBlocks property
  | .bindName _ _ | .bindElements _ _ _ | .bindFields _ _ | .bindElementAt _ _ _ | .bindBefore _ _ _
  | .bindAfter _ _ _ | .search _ _ _ _ => True
  | .guarded _ body => property body ∧ Statement.AllBlocksEach property body
  | .choose test whenTrue whenFalse =>
    test.AllBlocks property ∧ (property whenTrue ∧ Statement.AllBlocksEach property whenTrue) ∧
      property whenFalse ∧ Statement.AllBlocksEach property whenFalse
  | .switch _ cases => SwitchCase.AllBlocksEach property cases

/-- The property holds of all blocks in the statements. -/
def Statement.AllBlocksEach (property : List Statement → Prop) : List Statement → Prop
  | [] => True
  | statement :: rest => statement.AllBlocks property ∧ Statement.AllBlocksEach property rest

/-- The property holds of all blocks in the cases of a switch. -/
def SwitchCase.AllBlocksEach (property : List Statement → Prop) : List SwitchCase → Prop
  | [] => True
  | ⟨_, body⟩ :: rest =>
    (property body ∧ Statement.AllBlocksEach property body) ∧ SwitchCase.AllBlocksEach property rest

/-- The property holds of all blocks in the declaration. -/
def Declaration.AllBlocks (property : List Statement → Prop) : Declaration → Prop
  | .function _ body => property body ∧ Statement.AllBlocksEach property body
  | .constant _ value => value.AllBlocks property
  | .verbatim _ => True

end

section Lists

variable {name : String} {property : List Statement → Prop}

@[simp]
theorem Term.referEach {items : List Term} : Term.ReferEach name items ↔ ∃ item ∈ items, item.Refers name := by
  induction items <;> simp_all [Term.ReferEach]

@[simp]
theorem TermField.referEach {fields : List TermField} :
    TermField.ReferEach name fields ↔ ∃ field ∈ fields, field.value.Refers name := by
  induction fields with
  | nil => simp [TermField.ReferEach]
  | cons field rest step =>
    cases field
    simp [TermField.ReferEach, step]

@[simp]
theorem Statement.referEach {block : List Statement} :
    Statement.ReferEach name block ↔ ∃ statement ∈ block, statement.Refers name := by
  induction block <;> simp_all [Statement.ReferEach]

@[simp]
theorem SwitchCase.referEach {cases : List SwitchCase} :
    SwitchCase.ReferEach name cases ↔
      ∃ choice ∈ cases, choice.label.Refers name ∨
        name ∉ boundIn choice.body ∧ ∃ statement ∈ choice.body, statement.Refers name := by
  induction cases with
  | nil => simp [SwitchCase.ReferEach]
  | cons choice rest step =>
    cases choice
    simp [SwitchCase.ReferEach, step]

@[simp]
theorem Term.allBlocksEach {items : List Term} :
    Term.AllBlocksEach property items ↔ ∀ item ∈ items, item.AllBlocks property := by
  induction items <;> simp_all [Term.AllBlocksEach]

@[simp]
theorem TermField.allBlocksEach {fields : List TermField} :
    TermField.AllBlocksEach property fields ↔ ∀ field ∈ fields, field.value.AllBlocks property := by
  induction fields with
  | nil => simp [TermField.AllBlocksEach]
  | cons field rest step =>
    cases field
    simp [TermField.AllBlocksEach, step]

@[simp]
theorem Statement.allBlocksEach {block : List Statement} :
    Statement.AllBlocksEach property block ↔ ∀ statement ∈ block, statement.AllBlocks property := by
  induction block <;> simp_all [Statement.AllBlocksEach]

@[simp]
theorem SwitchCase.allBlocksEach {cases : List SwitchCase} :
    SwitchCase.AllBlocksEach property cases ↔
      ∀ choice ∈ cases, property choice.body ∧ ∀ statement ∈ choice.body, statement.AllBlocks property := by
  induction cases with
  | nil => simp [SwitchCase.AllBlocksEach]
  | cons choice rest step =>
    cases choice
    simp [SwitchCase.AllBlocksEach, step]

theorem mem_boundIn {block : List Statement} :
    name ∈ boundIn block ↔ ∃ statement ∈ block, name ∈ statement.binds :=
  List.mem_flatMap

end Lists

/-! ## Order -/

/-- The block declares each of its temporaries once. -/
def DeclaredOnce (block : List Statement) : Prop :=
  ∀ before name value after, block = before ++ .temporary name value :: after → name ∉ boundIn (before ++ after)

/-- No statement of the block refers to a temporary that the block declares there or behind it. -/
def InOrder (block : List Statement) : Prop :=
  ∀ before name value after, block = before ++ .temporary name value :: after →
    ¬ value.Refers name ∧ ∀ statement ∈ before, ¬ statement.Refers name

/-- The statement takes a value apart. -/
def Statement.takesApart : Statement → Bool
  | .bindName _ _ | .bindElements _ _ _ | .bindFields _ _ | .bindElementAt _ _ _ | .bindBefore _ _ _
  | .bindAfter _ _ _ | .search _ _ _ _ => true
  | _ => false

/-- A value is taken apart under a temporary, and the case at the end of the block declares the temporary anew. -/
def Reexamined (block : List Statement) : Prop :=
  ∃ front name value subject cases, block = front ++ [.temporary name value, .switch subject cases] ∧
    ∃ statement ∈ front, statement.takesApart ∧ statement.Refers name

/-- What lowering keeps to in every block. -/
def Orderly (block : List Statement) : Prop :=
  DeclaredOnce block ∧ (InOrder block ↔ ¬ Reexamined block)

/-! ## The shape of blocks -/

/-- The statement declares no temporary and reads none but the known one. -/
structure Calm (known : Option String) (statement : Statement) : Prop where
  reads : ∀ name, IsTemporary name → statement.Refers name → known = some name
  declares : ∀ name ∈ statement.binds, ¬ IsTemporary name
  other : ∀ name value, statement ≠ .temporary name value

/-- The block reads no temporary from outside but the known one, and it declares none or, at its end, that of a case. -/
inductive Shaped (known : Option String) : List Statement → Prop
  | plain (block : List Statement) (calm : ∀ statement ∈ block, Calm known statement) : Shaped known block
  | case (front : List Statement) (name : String) (value : Term) (subject : Subject) (cases : List SwitchCase)
      (calm : ∀ statement ∈ front, Calm known statement)
      (taking : ∀ statement ∈ front, ∀ other, IsTemporary other → statement.Refers other → statement.takesApart)
      (temporary : IsTemporary name) (closed : ∀ other, IsTemporary other → ¬ value.Refers other)
      (own : ∀ other, IsTemporary other → (Statement.switch subject cases).Refers other → other = name) :
      Shaped known (front ++ [.temporary name value, .switch subject cases])

section Shapes

variable {known : Option String} {block : List Statement}

theorem Calm.widen {statement : Statement} (calm : Calm none statement) (known : Option String) :
    Calm known statement where
  reads name temporary refers := absurd (calm.reads name temporary refers) (by simp)
  declares := calm.declares
  other := calm.other

/-- A block that reads no temporary may stand where one is known. -/
theorem Shaped.widen (shaped : Shaped none block) (known : Option String) : Shaped known block := by
  cases shaped with
  | plain _ calm => exact .plain block fun statement member => (calm statement member).widen known
  | case front name value subject cases calm taking temporary closed own =>
    exact .case front name value subject cases (fun statement member => (calm statement member).widen known)
      taking temporary closed own

/-- Statements in front that take a value apart keep the shape. -/
theorem Shaped.behind {front : List Statement} (calm : ∀ statement ∈ front, Calm known statement)
    (taking : ∀ statement ∈ front, ∀ other, IsTemporary other → statement.Refers other → statement.takesApart)
    (shaped : Shaped known block) : Shaped known (front ++ block) := by
  cases shaped with
  | plain _ others => exact .plain _ (List.forall_mem_append.mpr ⟨calm, others⟩)
  | case middle name value subject cases others takingToo temporary closed own =>
    rw [← List.append_assoc]
    exact .case (front ++ middle) name value subject cases (List.forall_mem_append.mpr ⟨calm, others⟩)
      (List.forall_mem_append.mpr ⟨taking, takingToo⟩) temporary closed own

/-- What the block reads from outside is known. -/
theorem Shaped.reads (shaped : Shaped known block) {name : String} (temporary : IsTemporary name)
    (outer : name ∉ boundIn block) (refers : ∃ statement ∈ block, statement.Refers name) : known = some name := by
  obtain ⟨statement, member, refers⟩ := refers
  cases shaped with
  | plain _ calm => exact (calm statement member).reads name temporary refers
  | case front declared value subject cases calm taking isTemporary closed own =>
    rcases List.mem_append.mp member with inFront | atEnd
    · exact (calm statement inFront).reads name temporary refers
    · rcases List.mem_pair.mp atEnd with rfl | rfl
      · exact absurd refers (closed name temporary)
      · have same := own name temporary refers
        exact absurd (mem_boundIn.mpr ⟨_, List.mem_append_right front List.mem_cons_self,
          by simp [Statement.binds, same]⟩) outer

/-- Calm statements do not declare the temporary of a case. -/
theorem split_calm {before after : List Statement} {name : String} {value : Term}
    (calm : ∀ statement ∈ block, Calm known statement) : block ≠ before ++ .temporary name value :: after := by
  rintro rfl
  exact (calm (.temporary name value) (by simp)).other name value rfl

/-- A block with a calm front declares a temporary in the case at its end only. -/
theorem split_case {front before after : List Statement} {name other : String} {value given : Term}
    {subject : Subject} {cases : List SwitchCase} (calm : ∀ statement ∈ front, Calm known statement)
    (split : front ++ [.temporary name value, .switch subject cases] = before ++ .temporary other given :: after) :
    before = front ∧ other = name ∧ given = value ∧ after = [.switch subject cases] := by
  induction front generalizing before with
  | nil =>
    match before, split with
    | [], split =>
      obtain ⟨⟨rfl, rfl⟩, rfl⟩ := by simpa using split
      exact ⟨rfl, rfl, rfl, rfl⟩
    | [_], split => simp at split
    | _ :: _ :: _, split => simp at split
  | cons statement rest step =>
    obtain ⟨first, others⟩ := List.forall_mem_cons.mp calm
    cases before with
    | nil =>
      obtain ⟨same, -⟩ := List.cons.inj split
      exact absurd same (first.other other given)
    | cons head before =>
      obtain ⟨same, behind⟩ := List.cons.inj split
      obtain ⟨equal, ending⟩ := step others behind
      exact ⟨by rw [same, equal], ending⟩

/-- **Blocks of this shape are orderly.** -/
theorem Shaped.orderly (shaped : Shaped known block) : Orderly block := by
  cases shaped with
  | plain _ calm =>
    refine ⟨fun _ _ _ _ split => absurd split (split_calm calm), iff_of_true ?_ ?_⟩
    · exact fun _ _ _ _ split => absurd split (split_calm calm)
    · rintro ⟨front, name, value, subject, cases, split, -⟩
      exact split_calm calm split
  | case front name value subject cases calm taking temporary closed own =>
    refine ⟨?_, ?_, ?_⟩
    · intro before other given after split declared
      obtain ⟨rfl, rfl, rfl, rfl⟩ := split_case calm split
      obtain ⟨statement, member, binds⟩ := mem_boundIn.mp declared
      rcases List.mem_append.mp member with inFront | atEnd
      · exact (calm statement inFront).declares other binds temporary
      · rw [List.mem_singleton.mp atEnd] at binds
        exact absurd binds List.not_mem_nil
    · rintro ordered ⟨before, other, given, target, choices, split, statement, member, -, refers⟩
      obtain ⟨rfl, rfl, rfl, -⟩ := split_case calm split
      exact (ordered before other given _ rfl).2 statement member refers
    · intro apart before other given after split
      obtain ⟨rfl, rfl, rfl, rfl⟩ := split_case calm split
      refine ⟨closed other temporary, fun statement member refers => apart ?_⟩
      exact ⟨before, other, given, subject, cases, rfl, statement, member,
        taking statement member other temporary refers, refers⟩

end Shapes

/-! ## Sound blocks -/

/-- The block has the shape, and all blocks in it are orderly. -/
structure Sound (known : Option String) (block : List Statement) : Prop where
  shaped : Shaped known block
  inner : ∀ statement ∈ block, statement.AllBlocks Orderly

section Sound

variable {known : Option String} {block : List Statement}

theorem Sound.widen (sound : Sound none block) (known : Option String) : Sound known block :=
  ⟨sound.shaped.widen known, sound.inner⟩

/-- Statements that take a value apart may stand in front. -/
theorem Sound.behind {front : List Statement} (sound : Sound known block)
    (taking : ∀ statement ∈ front, Calm known statement ∧ statement.takesApart) : Sound known (front ++ block) where
  shaped := sound.shaped.behind (fun statement member => (taking statement member).1)
    fun statement member _ _ _ => (taking statement member).2
  inner := by
    refine List.forall_mem_append.mpr ⟨fun statement member => ?_, sound.inner⟩
    have apart := (taking statement member).2
    cases statement <;> simp_all [Statement.takesApart, Statement.AllBlocks]

/-- A sound block may stand under a condition. -/
theorem Sound.guarded {condition : Condition} (sound : Sound known block)
    (reads : ∀ name, IsTemporary name → condition.Refers name → known = some name) :
    Sound known [.guarded condition block] where
  shaped := by
    refine .plain _ (List.forall_mem_singleton.mpr ⟨fun name temporary refers => ?_, ?_, by simp⟩)
    · rw [Statement.Refers, Statement.referEach] at refers
      rcases refers with condition | ⟨outer, refers⟩
      · exact reads name temporary condition
      · exact sound.shaped.reads temporary outer refers
    · simp [Statement.binds, Statement.declares]
  inner := by
    refine List.forall_mem_singleton.mpr ?_
    rw [Statement.AllBlocks, Statement.allBlocksEach]
    exact ⟨sound.shaped.orderly, sound.inner⟩

end Sound

end DerwLang.Ecma
