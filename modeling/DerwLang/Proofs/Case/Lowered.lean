/-
**What holds of everything that is lowered.**

Lowering builds terms, bodies and declarations out of those of the parts. So what every way to build them keeps holds of all that it
gives, from any names for the values of cases that are temporaries.

* `Gives`: the result of a lowering has a property, and the names given so far still are temporaries;
* `Assertion.Closed`: what is asserted of terms, bodies and declarations is kept by each way to build them;
* `Assertion.Closed.lower`, `Assertion.Closed.lowerBlock`: so it holds of what an expression or a declaration is lowered to.
-/

import DerwLang.Proofs.Case.Scopes
import DerwLang.Proofs.Layout.Everywhere

namespace DerwLang.Ecma

/-! ## Names for the values of cases -/

/-- All names given so far are temporaries. -/
def TempNames.Given (names : TempNames) : Prop :=
  ∀ name ∈ names.taken, IsTemporary name

/-- From names that are temporaries, the result has the property and the names still are temporaries. -/
def Gives {α : Type} (action : Lowering α) (property : α → Prop) : Prop :=
  ∀ names : TempNames, names.Given → property (action names).1 ∧ (action names).2.Given

theorem Gives.pure {α : Type} {value : α} {property : α → Prop} (holds : property value) :
    Gives (pure value) property :=
  fun _ given => ⟨holds, given⟩

theorem Gives.bind {α β : Type} {action : Lowering α} {next : α → Lowering β} {property : β → Prop}
    {middle : α → Prop} (first : Gives action middle) (later : ∀ value, middle value → Gives (next value) property) :
    Gives (action >>= next) property := fun names given =>
  later (action names).1 (first names given).1 (action names).2 (first names given).2

/-- The name for the value of a case is a temporary. -/
theorem gives_nameOfValue (dialect : Dialect) (value : Term) : Gives (nameOfValue dialect value) IsTemporary := by
  intro names given
  have free : IsTemporary (names.free (value.text dialect)) := ⟨_, _, rfl⟩
  change IsTemporary (names.nameFor (value.text dialect)).1 ∧ (names.nameFor (value.text dialect)).2.Given
  rw [TempNames.nameFor]
  cases known : names.entries.lookup (value.text dialect) with
  | some name =>
    have member : (value.text dialect, name) ∈ names.entries := by
      obtain ⟨before, after, split, -⟩ := List.lookup_eq_some_iff.mp known
      simp [split]
    exact ⟨given name (List.mem_map_of_mem member), given⟩
  | none =>
    refine ⟨free, fun name member => ?_⟩
    have known : name ∈ names.taken ∨ name = names.free (value.text dialect) := by
      simpa [TempNames.taken] using member
    rcases known with before | rfl
    · exact given name before
    · exact free

/-! ## Assertions -/

/-- What is asserted of the parts of a script: of terms, of bodies, of the local definitions in front of a body, and of the
declaration that a block becomes. -/
structure Assertion where
  term : Term → Prop
  body : List Statement → Prop
  locals : List Statement → Prop
  declaration : Block → Declaration → Prop

/-- The assertion is kept by every way in which lowering builds terms, bodies and declarations, over syntax that meets the
checks. -/
structure Assertion.Closed (assertion : Assertion) (dialect : Dialect) (checks : Checks) : Prop where
  value : ∀ {text}, checks.expression (.value text) → assertion.term (.verbatim text)
  string : ∀ {text}, checks.expression (.string text) → assertion.term (.quoted text)
  formatString : ∀ {text}, checks.expression (.formatString text) → assertion.term (.template text)
  list : ∀ {items : List Term}, (∀ item ∈ items, assertion.term item) → assertion.term (.array items)
  range : ∀ {first last}, checks.expression (.range first last) → assertion.term (.span first last)
  record : ∀ {base} {fields : List Field} {terms : List TermField}, checks.expression (.record ⟨base, fields⟩) →
    terms.map TermField.name = fields.map Field.name → (∀ field ∈ terms, assertion.term field.value) →
    assertion.term (.record base terms)
  construct : ∀ {tag base} {fields : List Field} {terms : List TermField},
    checks.expression (.construct tag ⟨base, fields⟩) → terms.map TermField.name = fields.map Field.name →
    (∀ field ∈ terms, assertion.term field.value) → assertion.term (.construct tag base terms)
  conditional : ∀ {test whenTrue whenFalse}, assertion.term test → assertion.term whenTrue → assertion.term whenFalse →
    assertion.term (.conditional test whenTrue whenFalse)
  choose : ∀ {test whenTrue whenFalse}, assertion.term test → assertion.body whenTrue → assertion.body whenFalse →
    assertion.body [.choose test whenTrue whenFalse]
  caseOf : ∀ {name value} {branches : List (Pattern × List Statement)}, IsTemporary name → assertion.term value →
    (∀ branch ∈ branches, checks.pattern branch.1 ∧ assertion.body branch.2) →
    assertion.body (caseStatements name value branches)
  application : ∀ {function argument}, assertion.term function → assertion.term argument →
    assertion.term (.application function argument)
  operation : ∀ {operator left right}, assertion.term left → assertion.term right →
    assertion.term (operationTerm operator left right)
  call : ∀ {name} {items : List Expression} {arguments : List Term}, checks.expression (.call name items) →
    (∀ argument ∈ arguments, assertion.term argument) → assertion.term (.call name arguments)
  lambda : ∀ {parameters result body}, checks.expression (.lambda ⟨parameters, result⟩) → assertion.body body →
    assertion.term (.function parameters body)
  lambdaCall : ∀ {parameters result body} {items : List Expression} {arguments : List Term},
    checks.expression (.lambdaCall ⟨parameters, result⟩ items) → assertion.body body →
    (∀ argument ∈ arguments, assertion.term argument) → assertion.term (.functionCall parameters body arguments)
  referred : ∀ {path value}, checks.expression (.reference path value) → checks.expression value
  reference : ∀ {path value term}, checks.expression (.reference path value) → assertion.term term →
    assertion.term (.member path term)
  returning : ∀ {value}, assertion.term value → assertion.body [.returning value]
  immediate : ∀ {body}, assertion.body body → assertion.term (.immediate body)
  append : ∀ {locals body}, assertion.locals locals → assertion.body body → assertion.body (locals ++ body)
  nil : assertion.locals []
  cons : ∀ {block declaration rest}, assertion.declaration block declaration → assertion.locals rest →
    assertion.locals (.declaring declaration :: rest)
  function : ∀ {name returnType parameters result body},
    checks.block (.function ⟨name, returnType, parameters, result⟩) → assertion.body body →
    assertion.declaration (.function ⟨name, returnType, parameters, result⟩)
      (.function (definitionHead dialect name parameters returnType) body)
  constant : ∀ {name type result value}, checks.block (.constant ⟨name, type, result⟩) → assertion.term value →
    assertion.declaration (.constant ⟨name, type, result⟩) (.constant (binder dialect name type) value)
  imports : ∀ {modules}, checks.block (.imports modules) →
    assertion.declaration (.imports modules) (.verbatim (Text.unlines (modules.map importText)))
  exports : ∀ {names}, checks.block (.exports names) →
    assertion.declaration (.exports names) (.verbatim (exportText names))
  union : ∀ {declared}, checks.block (.union declared) →
    assertion.declaration (.union declared) (.verbatim (unionText dialect declared))
  typeAlias : ∀ {declared}, checks.block (.alias declared) →
    assertion.declaration (.alias declared) (.verbatim (aliasText dialect declared))
  comment : ∀ {text}, assertion.declaration (.comment text) (.verbatim "")
  multilineComment : ∀ {text}, assertion.declaration (.multilineComment text) (.verbatim "")

/-- The assertion holds of what is lowered, a term or statements. -/
def Assertion.Lowered (assertion : Assertion) : Ecma.Lowered → Prop
  | .term value => assertion.term value
  | .statements body => assertion.body body

namespace Assertion.Closed

variable {assertion : Assertion} {dialect : Dialect} {checks : Checks} (closed : assertion.Closed dialect checks)

include closed

theorem toTerm {lowered : Ecma.Lowered} (holds : assertion.Lowered lowered) : assertion.term lowered.toTerm := by
  cases lowered with
  | term => exact holds
  | statements => exact closed.immediate holds

theorem toStatements {lowered : Ecma.Lowered} (holds : assertion.Lowered lowered) :
    assertion.body lowered.toStatements := by
  cases lowered with
  | term => exact closed.returning holds
  | statements => exact holds

mutual

/-- **What is kept by every way to build terms and bodies holds of what an expression is lowered to.** -/
theorem lower (atEnd : Bool) : ∀ expression : Expression, expression.Everywhere checks →
    Gives (Ecma.lower dialect atEnd expression) assertion.Lowered
  | .value text, met => by
    rw [Ecma.lower]
    exact .pure (closed.value met.1)
  | .string text, met => by
    rw [Ecma.lower]
    exact .pure (closed.string met.1)
  | .formatString text, met => by
    rw [Ecma.lower]
    exact .pure (closed.formatString met.1)
  | .list items, met => by
    rw [Ecma.lower]
    exact (lowerEach items (everywhere_list.mp met).2).bind fun _ each => .pure (closed.list each)
  | .range first last, met => by
    rw [Ecma.lower]
    exact .pure (closed.range met.1)
  | .record ⟨base, fields⟩, met => by
    obtain ⟨own, inner⟩ := everywhere_record.mp met
    rw [Ecma.lower]
    exact (lowerFields fields inner).bind fun _ ⟨names, each⟩ => .pure (closed.record own names each)
  | .conditional predicate ⟨yesLocals, yes⟩ ⟨noLocals, no⟩, met => by
    obtain ⟨-, test, whenTrue, whenFalse⟩ := everywhere_conditional.mp met
    obtain ⟨-, yesLocals_, yes_⟩ := everywhere_body.mp whenTrue
    obtain ⟨-, noLocals_, no_⟩ := everywhere_body.mp whenFalse
    rw [Ecma.lower]
    refine (lower false predicate test).bind fun _ test => ?_
    split
    · refine (lowerBlocks yesLocals yesLocals_).bind fun _ yesLocals => ?_
      refine (lower true yes yes_).bind fun _ yes => ?_
      refine (lowerBlocks noLocals noLocals_).bind fun _ noLocals => ?_
      refine (lower true no no_).bind fun _ no => .pure ?_
      exact closed.choose (closed.toTerm test) (closed.append yesLocals (closed.toStatements yes))
        (closed.append noLocals (closed.toStatements no))
    · refine (lower false yes yes_).bind fun _ yes => ?_
      refine (lower false no no_).bind fun _ no => .pure ?_
      exact closed.conditional (closed.toTerm test) (closed.toTerm yes) (closed.toTerm no)
  | .caseOf predicate branches, met => by
    obtain ⟨-, value, inner⟩ := everywhere_caseOf.mp met
    rw [Ecma.lower]
    refine (lower false predicate value).bind fun _ value => ?_
    refine (gives_nameOfValue dialect _).bind fun _ temporary => ?_
    exact (lowerBranches branches inner).bind fun _ lowered =>
      .pure (closed.caseOf temporary (closed.toTerm value) lowered)
  | .binary operator left right, met => by
    obtain ⟨-, first, second⟩ := everywhere_binary.mp met
    by_cases pipe : operator = .pipeInto
    · subst pipe
      rw [Ecma.lower]
      refine (lower false right second).bind fun _ second => ?_
      exact (lower false left first).bind fun _ first =>
        .pure (closed.application (closed.toTerm second) (closed.toTerm first))
    · rw [Ecma.lower]
      · refine (lower false left first).bind fun _ first => ?_
        refine (lower false right second).bind fun _ second => ?_
        split
        · exact .pure (closed.application (closed.toTerm first) (closed.toTerm second))
        · exact .pure (closed.operation (closed.toTerm first) (closed.toTerm second))
      · exact pipe
  | .call name arguments, met => by
    obtain ⟨own, inner⟩ := everywhere_call.mp met
    rw [Ecma.lower]
    exact (lowerEach arguments inner).bind fun _ each => .pure (closed.call own each)
  | .lambda ⟨parameters, body⟩, met => by
    obtain ⟨own, inner⟩ := everywhere_lambda.mp met
    rw [Ecma.lower]
    exact (lower true body inner).bind fun _ body => .pure (closed.lambda own (closed.toStatements body))
  | .lambdaCall ⟨parameters, body⟩ arguments, met => by
    obtain ⟨own, inner, others⟩ := met
    rw [Ecma.lower]
    refine (lowerEach arguments (Expression.everywhereEach.mp others)).bind fun _ each => ?_
    exact (lower true body inner).bind fun _ body => .pure (closed.lambdaCall own (closed.toStatements body) each)
  | .construct tag ⟨base, fields⟩, met => by
    obtain ⟨own, inner⟩ := everywhere_construct.mp met
    rw [Ecma.lower]
    exact (lowerFields fields inner).bind fun _ ⟨names, each⟩ => .pure (closed.construct own names each)
  | .reference path value, met => by
    rw [Ecma.lower]
    exact (lower false value ⟨closed.referred met.1, met.2⟩).bind fun _ value =>
      .pure (closed.reference met.1 (closed.toTerm value))

theorem lowerEach : ∀ items : List Expression, (∀ item ∈ items, item.Everywhere checks) →
    Gives (Ecma.lowerEach dialect items) fun terms => ∀ term ∈ terms, assertion.term term
  | [], _ => by
    rw [Ecma.lowerEach]
    exact .pure (by simp)
  | item :: rest, met => by
    obtain ⟨first, others⟩ := List.forall_mem_cons.mp met
    rw [Ecma.lowerEach]
    refine (lower false item first).bind fun _ first => ?_
    exact (lowerEach rest others).bind fun _ others =>
      .pure (List.forall_mem_cons.mpr ⟨closed.toTerm first, others⟩)

/-- Fields keep their names. -/
theorem lowerFields : ∀ fields : List Field, (∀ field ∈ fields, field.value.Everywhere checks) →
    Gives (Ecma.lowerFields dialect fields) fun terms =>
      terms.map TermField.name = fields.map Field.name ∧ ∀ field ∈ terms, assertion.term field.value
  | [], _ => by
    rw [Ecma.lowerFields]
    exact .pure (by simp)
  | ⟨name, value⟩ :: rest, met => by
    obtain ⟨first, others⟩ := List.forall_mem_cons.mp met
    rw [Ecma.lowerFields]
    refine (lower false value first).bind fun _ first => ?_
    refine (lowerFields rest others).bind fun _ ⟨names, others⟩ => .pure ⟨?_, ?_⟩
    · rw [List.map_cons, List.map_cons, names]
    · exact List.forall_mem_cons.mpr ⟨closed.toTerm first, others⟩

theorem lowerBranches : ∀ branches : List Branch,
    (∀ branch ∈ branches, checks.pattern branch.pattern ∧ branch.body.Everywhere checks) →
    Gives (Ecma.lowerBranches dialect branches) fun lowered =>
      ∀ branch ∈ lowered, checks.pattern branch.1 ∧ assertion.body branch.2
  | [], _ => by
    rw [Ecma.lowerBranches]
    exact .pure (by simp)
  | ⟨pattern, ⟨locals, result⟩⟩ :: rest, met => by
    obtain ⟨⟨own, body⟩, others⟩ := List.forall_mem_cons.mp met
    obtain ⟨-, locals_, result_⟩ := everywhere_body.mp body
    rw [Ecma.lowerBranches]
    refine (lowerBlocks locals locals_).bind fun _ locals => ?_
    refine (lower true result result_).bind fun _ result => ?_
    exact (lowerBranches rest others).bind fun _ others =>
      .pure (List.forall_mem_cons.mpr ⟨⟨own, closed.append locals (closed.toStatements result)⟩, others⟩)

/-- **It holds of the declaration that a block becomes.** -/
theorem lowerBlock : ∀ block : Block, block.Everywhere checks →
    Gives (Ecma.lowerBlock dialect block) (assertion.declaration block)
  | .function ⟨name, returnType, parameters, ⟨locals, result⟩⟩, met => by
    obtain ⟨own, body⟩ := met
    obtain ⟨-, locals_, result_⟩ := everywhere_body.mp body
    rw [Ecma.lowerBlock]
    refine (lowerBlocks locals locals_).bind fun _ locals => ?_
    exact (lower true result result_).bind fun _ result =>
      .pure (closed.function own (closed.append locals (closed.toStatements result)))
  | .constant ⟨name, type, ⟨locals, result⟩⟩, met => by
    obtain ⟨own, body⟩ := met
    obtain ⟨-, locals_, result_⟩ := everywhere_body.mp body
    rw [Ecma.lowerBlock]
    split
    · exact (lower false result result_).bind fun _ value => .pure (closed.constant own (closed.toTerm value))
    · refine (lowerBlocks locals locals_).bind fun _ locals => ?_
      exact (lower true result result_).bind fun _ result =>
        .pure (closed.constant own (closed.immediate (closed.append locals (closed.toStatements result))))
  | .imports modules, met => by
    rw [Ecma.lowerBlock]
    exact .pure (closed.imports met)
  | .exports names, met => by
    rw [Ecma.lowerBlock]
    exact .pure (closed.exports met)
  | .union declared, met => by
    rw [Ecma.lowerBlock]
    exact .pure (closed.union met)
  | .alias declared, met => by
    rw [Ecma.lowerBlock]
    exact .pure (closed.typeAlias met)
  | .comment _, _ => by
    rw [Ecma.lowerBlock]
    exact .pure closed.comment
  | .multilineComment _, _ => by
    rw [Ecma.lowerBlock]
    exact .pure closed.multilineComment

theorem lowerBlocks : ∀ blocks : List Block, (∀ block ∈ blocks, block.Everywhere checks) →
    Gives (Ecma.lowerBlocks dialect blocks) assertion.locals
  | [], _ => by
    rw [Ecma.lowerBlocks]
    exact .pure closed.nil
  | block :: rest, met => by
    obtain ⟨first, others⟩ := List.forall_mem_cons.mp met
    rw [Ecma.lowerBlocks]
    refine (lowerBlock block first).bind fun _ first => ?_
    exact (lowerBlocks rest others).bind fun _ others => .pure (closed.cons first others)

end

end Assertion.Closed

end DerwLang.Ecma
