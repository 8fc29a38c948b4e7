/-
**The lines of a script.**

A generated declaration starts with `function`, `const`, `type` or `import`, and no line feed in it stands in front of an `e`. So no
line of a script starts with an `e` but those that export names:

* `unbroken_declared`, `unbroken_annotated`: types stand on a single line;
* `closed_lines`: what an expression is lowered to fits into a line, its statements are inset, and no line of a declaration
  starts with an `e`, whatever block it comes from but an exposing one.

This holds of all that is read from a source in which no quoted text goes over several lines (`Short.checks`,
`flatTexts_follow`).
-/

import DerwLang.Ecma.Module
import DerwLang.Proofs.Case.Lowered
import DerwLang.Proofs.Exports.Margin
import DerwLang.Proofs.Layout.Settled
import DerwLang.Proofs.Pipes.Everywhere

namespace DerwLang

/-! ## Texts of the source -/

/-- No quoted text goes over several lines, paths of imports among them. -/
def Short.checks : Checks where
  expression := OneLine.checks.expression
  pattern := OneLine.checks.pattern
  block
    | .imports modules => ∀ imported ∈ modules, Unbroken imported.name
    | _ => True

/-- The declaration lists names to export. -/
def Block.isExport : Block → Bool
  | .exports _ => true
  | _ => false

/-- The texts that stand at the root of an expression. -/
def Expression.ownTexts : Expression → List String
  | .value text | .string text | .formatString text => [text]
  | .range first last => [first, last]
  | .record literal => literal.base.toList ++ literal.fields.map Field.name
  | .call name _ => [name]
  | .lambda inner | .lambdaCall inner _ => inner.parameters
  | .construct tag literal => tag :: (literal.base.toList ++ literal.fields.map Field.name)
  | .reference path inner => path ++ inner.ownTexts
  | .list _ | .conditional _ _ _ | .caseOf _ _ | .binary _ _ _ => []

/-- All texts of the source stand on single lines, and what the declarations say can be read. -/
def flatTexts : Checks where
  expression expression := ∀ text ∈ expression.ownTexts, Unbroken text
  pattern := Pattern.Unbroken
  block block := Sound.Block block ∧ Short.checks.block block

theorem unbroken_of_name {name : String} (isName : Sound.Name name) : Unbroken name :=
  not_mem_of_isNameChar isName.isNameChar

theorem unbroken_reference {path : List String} {name : String} (sound : Sound.Reference path name) :
    ∀ text ∈ path ++ [name], Unbroken text := by
  have whole : Unbroken (Written.whole path name) := unbroken_of_name sound.1
  obtain ⟨front, last⟩ := unbroken_append.mp whole
  refine List.forall_mem_append.mpr
    ⟨fun text member feed => (unbroken_append.mp front).1 ?_, List.forall_mem_singleton.mpr last⟩
  obtain ⟨before, after, rfl⟩ := List.append_of_mem member
  rw [String.toList_intercalate]
  cases before <;> simp [Layout.intercalate_cons, feed]

theorem unbroken_recordLiteral {literal : RecordLiteral} (sound : Sound.RecordLiteral literal) :
    ∀ text ∈ literal.base.toList ++ literal.fields.map Field.name, Unbroken text :=
  List.forall_mem_append.mpr ⟨fun text member => unbroken_of_name (sound.1 text (Option.mem_toList.mp member)),
    List.forall_mem_map.mpr fun field member => unbroken_of_name (sound.2 field member)⟩

theorem unbroken_ownTexts (expression : Expression) (sound : Sound.Expression expression)
    (short : OneLine.checks.expression expression) : ∀ text ∈ expression.ownTexts, Unbroken text := by
  cases expression with
  | value text =>
    rw [Expression.ownTexts, List.forall_mem_singleton]
    rcases sound with ⟨isName, -⟩ | ⟨isWord, notList⟩ | ⟨c, rest, chars, digit, isWord⟩
    · exact unbroken_of_name isName
    · exact not_mem_of_isNameChar (isWord.isNameChar_of_literal notList)
    · rw [Unbroken, chars, List.mem_cons, not_or]
      exact ⟨by decide, not_mem_of_isNameChar (isWord.isNameChar_of_digit digit)⟩
  | string text | formatString text =>
    rw [Expression.ownTexts, List.forall_mem_singleton]
    exact short
  | range first last =>
    rw [Expression.ownTexts, List.forall_mem_cons, List.forall_mem_singleton]
    exact short
  | record literal => exact unbroken_recordLiteral sound
  | call name arguments =>
    rw [Expression.ownTexts, List.forall_mem_singleton]
    exact unbroken_of_name sound.1
  | lambda inner =>
    obtain ⟨parameters, body⟩ := inner
    exact fun text member => unbroken_of_name (sound.2 text member)
  | lambdaCall => exact absurd sound id
  | construct tag literal =>
    exact List.forall_mem_cons.mpr ⟨unbroken_of_name sound.1.1, unbroken_recordLiteral sound.2⟩
  | reference path value =>
    cases value with
    | value name => exact unbroken_reference sound
    | call name arguments => exact unbroken_reference sound.1
    | _ => exact absurd sound id
  | list | conditional | caseOf | binary =>
    rw [Expression.ownTexts]
    exact fun text member => absurd member List.not_mem_nil

theorem unbroken_pattern (pattern : Pattern) (sound : Sound.Pattern pattern) (short : OneLine.checks.pattern pattern) :
    pattern.Unbroken := by
  cases pattern with
  | tag pattern => exact unbroken_of_name sound.1
  | string text | formatString text => exact short
  | list parts =>
    intro part member
    cases part with
    | emptyList => trivial
    | string text => exact short text (.inl member)
    | formatString text => exact short text (.inr member)
    | name name => exact unbroken_of_name (sound.2.1 _ member).1
    | tag pattern => exact unbroken_of_name (sound.2.1 _ member).1
  | emptyList | otherwise => trivial

/-- All texts of a source stand on single lines if its quoted texts do. -/
theorem flatTexts_follow : Checks.Follows Sound.checks Short.checks flatTexts where
  expression := unbroken_ownTexts
  pattern := unbroken_pattern
  body _ _ _ := trivial
  block _ sound short := ⟨sound, short⟩

theorem shallow_flatTexts : flatTexts.Shallow where
  rooted rooted flat := by
    have same : ∀ {first second : Expression}, first.Rooted second → second.ownTexts = first.ownTexts := by
      intro first second rooted
      cases rooted with
      | record names | construct tag names => simp [Expression.ownTexts, names.1, names.2]
      | lambda parameters | lambdaCall parameters => exact parameters
      | list | conditional | caseOf | binary | applied | call | lambdaApplied => rfl
    exact fun text member => flat text (same rooted ▸ member)
  value flat := (List.forall_mem_append.mp flat).2
  reference flat value := List.forall_mem_append.mpr ⟨(List.forall_mem_append.mp flat).1, value⟩
  body _ := trivial
  function _ flat := flat
  constant _ flat := flat

/-! ## Types -/

mutual

/-- The names in the type stand on single lines. -/
def Ty.Unbroken : Ty → Prop
  | .variable name => DerwLang.Unbroken name
  | .named name arguments => DerwLang.Unbroken name ∧ Ty.UnbrokenEach arguments
  | .function parts => Ty.UnbrokenEach parts

/-- The names in the types stand on single lines. -/
def Ty.UnbrokenEach : List Ty → Prop
  | [] => True
  | type :: rest => type.Unbroken ∧ Ty.UnbrokenEach rest

end

@[simp]
theorem Ty.unbrokenEach_iff {types : List Ty} : Ty.UnbrokenEach types ↔ ∀ type ∈ types, type.Unbroken := by
  induction types <;> simp_all [Ty.UnbrokenEach]

mutual

theorem unbroken_type : ∀ type : Ty, Sound.Annotation type → type.Unbroken
  | .variable _, sound => unbroken_of_name sound.1
  | .named _ arguments, sound => ⟨unbroken_of_name sound.1, unbroken_types arguments sound.2.2⟩
  | .function parts, sound => unbroken_types parts sound.2

theorem unbroken_types : ∀ types : List Ty, Sound.Annotations types → Ty.UnbrokenEach types
  | [], _ => trivial
  | type :: rest, sound => ⟨unbroken_type type sound.1, unbroken_types rest sound.2⟩

end

theorem unbroken_of_declared {type : Ty} (sound : Sound.Declared type) : type.Unbroken := by
  obtain ⟨name, parameters, rfl, isName, names⟩ := sound
  refine ⟨unbroken_of_name isName, Ty.unbrokenEach_iff.mpr (List.forall_mem_map.mpr fun parameter member => ?_)⟩
  exact unbroken_of_name (names parameter member)

namespace Ecma

section Types

variable {names named : List String} {types : List Ty}

theorem unbroken_typeArguments (each : ∀ name ∈ names, Unbroken name) : Unbroken (typeArguments names) := by
  unfold typeArguments
  split
  · exact (by decide : Unbroken "")
  · exact (Unbroken.append (by decide) (unbroken_commaSeparated each)).append (by decide)

theorem unbroken_arrayType (each : ∀ type ∈ types, type.Unbroken) (texts : ∀ text ∈ named, Unbroken text) :
    Unbroken (arrayType types named) := by
  unfold arrayType
  split
  · exact Unbroken.append (List.forall_mem_cons.mp each).1 (by decide)
  · exact (by decide : Unbroken "any[]")
  · exact Unbroken.append (List.forall_mem_singleton.mp texts) (by decide)
  · exact (unbroken_intercalate (by decide) texts).parenthesised.append (by decide)

theorem unbroken_functionType (texts : ∀ text ∈ names, Unbroken text) : Unbroken (functionType names) := by
  have arguments : ∀ text ∈ argumentTexts names.dropLast, Unbroken text := by
    refine List.forall_mem_map.mpr fun type member => ?_
    have own : Unbroken type.1 := texts _ ((List.dropLast_sublist _).subset (List.fst_mem_of_mem_zipIdx member))
    exact ((Unbroken.append (by decide) (unbroken_toString _)).append (by decide)).append own
  unfold functionType
  split
  · exact (by decide : Unbroken "() => void")
  · rename_i result last
    exact ((unbroken_commaSeparated arguments).parenthesised.append (by decide)).append (texts result (List.mem_of_getLast? last))

theorem unbroken_variableNames (each : ∀ type ∈ types, type.Unbroken) : ∀ name ∈ variableNames types, Unbroken name := by
  intro name member
  obtain ⟨type, among, own⟩ := List.mem_filterMap.mp member
  match type, own with
  | .variable _, rfl => exact each _ among

mutual

/-- **A type in a declaration stands on a single line.** -/
theorem unbroken_declared : ∀ type : Ty, type.Unbroken → Unbroken (declared type)
  | .variable _, flat => flat
  | .named name arguments, flat => by
    have each := Ty.unbrokenEach_iff.mp flat.2
    rw [declared]
    split
    · exact unbroken_arrayType each (unbroken_declaredNamed arguments flat.2)
    · exact flat.1.append (unbroken_typeArguments (unbroken_variableNames each))
  | .function parts, flat => by
    rw [declared]
    exact unbroken_functionType (unbroken_declaredEach parts flat)

theorem unbroken_declaredEach : ∀ types : List Ty, Ty.UnbrokenEach types → ∀ text ∈ declaredEach types, Unbroken text
  | [], _ => nofun
  | type :: rest, flat => List.forall_mem_cons.mpr ⟨unbroken_declared type flat.1, unbroken_declaredEach rest flat.2⟩

theorem unbroken_declaredNamed : ∀ types : List Ty, Ty.UnbrokenEach types → ∀ text ∈ declaredNamed types, Unbroken text
  | [], _ => nofun
  | .named name arguments :: rest, flat =>
    List.forall_mem_cons.mpr ⟨unbroken_declared (.named name arguments) flat.1, unbroken_declaredNamed rest flat.2⟩
  | .variable _ :: rest, flat | .function _ :: rest, flat => unbroken_declaredNamed rest flat.2

end

mutual

/-- **So does a type that annotates a value.** -/
theorem unbroken_annotated : ∀ type : Ty, type.Unbroken → Unbroken (annotated type)
  | .named name arguments, flat => by
    rw [annotated]
    split
    · exact unbroken_arrayType (Ty.unbrokenEach_iff.mp flat.2) (unbroken_annotatedNamed arguments flat.2)
    · exact flat.1.append (unbroken_typeArguments (unbroken_annotatedEach arguments flat.2))
  | .variable name, flat => flat
  | .function parts, flat => unbroken_declared (.function parts) flat

theorem unbroken_annotatedEach : ∀ types : List Ty, Ty.UnbrokenEach types → ∀ text ∈ annotatedEach types, Unbroken text
  | [], _ => nofun
  | type :: rest, flat => List.forall_mem_cons.mpr ⟨unbroken_annotated type flat.1, unbroken_annotatedEach rest flat.2⟩

theorem unbroken_annotatedNamed : ∀ types : List Ty, Ty.UnbrokenEach types → ∀ text ∈ annotatedNamed types, Unbroken text
  | [], _ => nofun
  | .named name arguments :: rest, flat =>
    List.forall_mem_cons.mpr ⟨unbroken_annotated (.named name arguments) flat.1, unbroken_annotatedNamed rest flat.2⟩
  | .variable _ :: rest, flat | .function _ :: rest, flat => unbroken_annotatedNamed rest flat.2

end

mutual

theorem unbroken_variablesOf : ∀ type : Ty, type.Unbroken → ∀ name ∈ variablesOf type, Unbroken name
  | .variable _, flat => List.forall_mem_singleton.mpr flat
  | .named _ arguments, flat => unbroken_variablesOfEach arguments flat.2
  | .function parts, flat => unbroken_variablesOfEach parts flat

theorem unbroken_variablesOfEach : ∀ types : List Ty, Ty.UnbrokenEach types → ∀ name ∈ variablesOfEach types, Unbroken name
  | [], _ => nofun
  | type :: rest, flat =>
    List.forall_mem_append.mpr ⟨unbroken_variablesOf type flat.1, unbroken_variablesOfEach rest flat.2⟩

end

end Types

/-! ## Terms -/

section Terms

variable {dialect : Dialect} {body : List Statement} {items : List Term} {fields : List TermField}

theorem fits_immediate (inset : InsetBody dialect body) : Fits ((Term.immediate body).text dialect) :=
  fits_immediateText dialect inset

theorem fits_texts (each : ∀ item ∈ items, Fits (item.text dialect)) : ∀ text ∈ Term.texts dialect items, Fits text := by
  induction items with
  | nil => nofun
  | cons item rest step =>
    obtain ⟨first, others⟩ := List.forall_mem_cons.mp each
    exact List.forall_mem_cons.mpr ⟨first, step others⟩

theorem fits_entries (names : ∀ field ∈ fields, Unbroken field.name)
    (each : ∀ field ∈ fields, Fits (field.value.text dialect)) : ∀ text ∈ Term.entries dialect fields, Fits text := by
  induction fields with
  | nil => nofun
  | cons field rest step =>
    obtain ⟨name, value⟩ := field
    obtain ⟨flat, otherNames⟩ := List.forall_mem_cons.mp names
    obtain ⟨first, others⟩ := List.forall_mem_cons.mp each
    refine List.forall_mem_cons.mpr ⟨?_, step otherNames others⟩
    unfold entryText
    split
    · exact fits_of_flat flat
    · exact (fits_of_flat (Unbroken.append flat (by decide))).append first

theorem fits_entriesText {base : Option String} (flat : ∀ name ∈ base.toList ++ fields.map TermField.name, Unbroken name)
    (each : ∀ field ∈ fields, Fits (field.value.text dialect)) :
    Fits (recordText ((base.map ("..." ++ ·)).toList ++ Term.entries dialect fields)) := by
  obtain ⟨own, names⟩ := List.forall_mem_append.mp flat
  refine fits_recordText (List.forall_mem_append.mpr
    ⟨fun text member => ?_, fits_entries (List.forall_mem_map.mp names) each⟩)
  obtain ⟨name, based, rfl⟩ := Option.map_eq_some_iff.mp (Option.mem_toList.mp member)
  exact fits_of_flat (Unbroken.append (by decide) (own name (Option.mem_toList.mpr based)))

theorem fits_operandText {text : String} (fits : Fits text) (parent : Nat) (onRight : Bool) (operand : Term) :
    Fits (operandText parent onRight operand text) := by
  unfold operandText
  split
  · exact fits.parenthesised
  · exact fits

theorem fits_branchText {text : String} (fits : Fits text) (branch : Term) : Fits (branchText branch text) := by
  unfold branchText
  split
  · split
    · exact fits
    · exact ((fits_of_flat (by decide)).append fits).append (fits_of_flat (by decide))
  · exact fits

theorem fits_operationTerm (operator : BinaryOperator) {left right : Term} (one : Fits (left.text dialect))
    (two : Fits (right.text dialect)) : Fits ((operationTerm operator left right).text dialect) := by
  have sign : Unbroken (symbol operator) := by cases operator <;> decide
  unfold operationTerm
  split
  · unfold Term.text
    exact ((((fits_of_flat (by decide)).append one).append (fits_of_flat (by decide))).append
      (fits_operandText two _ _ _)).append (fits_of_flat (by decide))
  · unfold Term.text
    exact ((((fits_operandText one _ _ _).append (fits_of_flat (by decide))).append (fits_of_flat sign)).append
      (fits_of_flat (by decide))).append (fits_operandText two _ _ _)

theorem inset_functionHead (dialect : Dialect) {parameters : List String} (flat : ∀ name ∈ parameters, Unbroken name) :
    Inset (functionHead dialect parameters).toList := by
  have annotated : ∀ name ∈ (if dialect.typed then parameters.map (· ++ ": any") else parameters), Unbroken name := by
    split
    · exact List.forall_mem_map.mpr fun name member => (flat name member).append (by decide)
    · exact flat
  exact inset_of_flat (Unbroken.append (by decide) (unbroken_commaSeparated annotated).parenthesised)

/-! Each kind of term fits into a line if its parts do. -/

theorem fits_verbatim {text : String} (flat : Unbroken text) : Fits ((Term.verbatim text).text dialect) :=
  fits_of_flat flat

theorem fits_quoted {text : String} (flat : Unbroken text) : Fits ((Term.quoted text).text dialect) :=
  fits_of_flat ((Unbroken.append (by decide) flat).append (by decide))

theorem fits_template {text : String} (flat : Unbroken text) : Fits ((Term.template text).text dialect) :=
  fits_of_flat ((Unbroken.append (by decide) flat).append (by decide))

theorem fits_record {base : Option String} (flat : ∀ name ∈ base.toList ++ fields.map TermField.name, Unbroken name)
    (each : ∀ field ∈ fields, Fits (field.value.text dialect)) : Fits ((Term.record base fields).text dialect) :=
  fits_entriesText flat each

theorem fits_construct {tag : String} {base : Option String} (flatTag : Unbroken tag)
    (flat : ∀ name ∈ base.toList ++ fields.map TermField.name, Unbroken name)
    (each : ∀ field ∈ fields, Fits (field.value.text dialect)) : Fits ((Term.construct tag base fields).text dialect) :=
  (fits_of_flat flatTag).append (fits_entriesText flat each).parenthesised

theorem fits_array (each : ∀ item ∈ items, Fits (item.text dialect)) : Fits ((Term.array items).text dialect) := by
  cases items with
  | nil => exact (fits_of_flat (by decide) : Fits "[ ]")
  | cons first rest =>
    exact ((fits_of_flat (by decide)).append (fits_commaSeparated (fits_texts each))).append (fits_of_flat (by decide))

theorem fits_span {first last : String} (one : Unbroken first) (two : Unbroken last) :
    Fits ((Term.span first last).text dialect) :=
  fits_of_flat ((((((Unbroken.append (by decide) two).append (by decide)).append one).append (by decide)).append one).append
    (by decide))

theorem fits_conditional {test yes no : Term} (one : Fits (test.text dialect)) (two : Fits (yes.text dialect))
    (three : Fits (no.text dialect)) : Fits ((Term.conditional test yes no).text dialect) :=
  ((((fits_operandText one _ _ _).append (fits_of_flat (by decide))).append (fits_branchText two _)).append
    (fits_of_flat (by decide))).append (fits_branchText three _)

theorem fits_application {function argument : Term} (one : Fits (function.text dialect)) (two : Fits (argument.text dialect)) :
    Fits ((Term.application function argument).text dialect) :=
  one.parenthesised.append two.parenthesised

theorem fits_call {name : String} (flat : Unbroken name) (each : ∀ item ∈ items, Fits (item.text dialect)) :
    Fits ((Term.call name items).text dialect) :=
  (fits_of_flat flat).append (fits_commaSeparated (fits_texts each)).parenthesised

theorem fits_function {parameters : List String} (flat : ∀ name ∈ parameters, Unbroken name)
    (inset : InsetBody dialect body) :
    Fits ((Term.function parameters body).text dialect) :=
  fits_functionText (inset_functionHead dialect flat) inset

theorem fits_functionCall {parameters : List String} (flat : ∀ name ∈ parameters, Unbroken name)
    (inset : InsetBody dialect body) (each : ∀ item ∈ items, Fits (item.text dialect)) :
    Fits ((Term.functionCall parameters body items).text dialect) :=
  (fits_functionText (inset_functionHead dialect flat) inset).parenthesised.append
    (fits_commaSeparated (fits_texts each)).parenthesised

theorem fits_member {path : List String} {value : Term} (flat : ∀ name ∈ path, Unbroken name)
    (fits : Fits (value.text dialect)) :
    Fits ((Term.member path value).text dialect) :=
  ((fits_of_flat (unbroken_intercalate (by decide) flat)).append (fits_of_flat (by decide))).append fits

theorem inset_returning (value : Term) : InsetBody dialect [.returning value] :=
  insetBody_nil.cons rfl

theorem inset_choose {test : Term} {whenTrue whenFalse : List Statement} (fits : Fits (test.text dialect))
    (one : InsetBody dialect whenTrue) (two : InsetBody dialect whenFalse) :
    InsetBody dialect [.choose test whenTrue whenFalse] :=
  insetBody_cons.mpr ⟨inset_chooseLines fits one two, insetBody_nil⟩

/-- Local definitions are inset whatever they are, as their lines are taken apart. -/
theorem inset_declaring (declaration : Declaration) {rest : List Statement} (inset : InsetBody dialect rest) :
    InsetBody dialect (.declaring declaration :: rest) :=
  inset.cons rfl

end Terms

/-! ## Declarations without expressions -/

/-- No line of the text starts with an `e`. -/
def Margin (text : String) : Prop :=
  Inset ('\n' :: text.toList)

/-- The text may stand at the start of a line that goes on behind it. -/
def Leads (text : String) : Prop :=
  Closed ('\n' :: text.toList)

instance (text : String) : Decidable (Leads text) :=
  inferInstanceAs (Decidable (Closed ('\n' :: text.toList)))

section Declarations

variable {text other : String} {texts : List String}

theorem Leads.margin (leads : Leads text) : Margin text :=
  Closed.inset leads

theorem Leads.append (leads : Leads text) (fits : Fits other) : Leads (text ++ other) := by
  rw [Leads, String.toList_append, ← List.cons_append]
  exact Closed.append leads fits

theorem Leads.sign (leads : Leads text) (sign : String) (fits : Fits sign) : Leads (text ++ sign) :=
  leads.append fits

/-- What ends with a line feed may end the text. -/
theorem Leads.open (leads : Leads text) (other : String) (inset : Inset other.toList) : Margin (text ++ other) := by
  rw [Margin, String.toList_append, ← List.cons_append]
  exact leads.margin.append inset (.inl leads.last)

/-- What starts with something else than an `e` may stand behind a line feed. -/
theorem Margin.append (margin : Margin text) (other : String) (fits : Fits other)
    (start : other.toList.head?.any (· != 'e') = true) : Leads (text ++ other) := by
  rw [Leads, String.toList_append, ← List.cons_append]
  exact Inset.closed margin fits start

theorem Margin.below (one : Margin text) (two : Margin other) : Margin (text ++ "\n" ++ other) := by
  rw [Margin, String.toList_append, String.toList_append, List.append_assoc, ← List.cons_append]
  exact Inset.append_feed one _ two

/-- Texts at the margin may stand below each other. -/
theorem margin_intercalate {between : String} (front : List Char) (glue : between.toList = front ++ ['\n'])
    (inset : Inset front) (start : between.toList.head? ≠ some 'e') (each : ∀ text ∈ texts, Margin text) :
    Margin (String.intercalate between texts) := by
  rw [Margin, String.toList_intercalate]
  cases texts with
  | nil => exact List.IsChain.singleton _
  | cons first rest =>
    obtain ⟨one, others⟩ := List.forall_mem_cons.mp each
    rw [List.map_cons, Layout.intercalate_cons, ← List.cons_append]
    refine inset_flatMap start (by simp [glue]) one (List.forall_mem_map.mpr fun text member => ?_)
    rw [glue, List.append_assoc]
    exact inset.append_feed _ (others text member)

theorem margin_unlines (each : ∀ text ∈ texts, Margin text) : Margin (Text.unlines texts) :=
  margin_intercalate [] rfl .nil (by decide) each

/-! ### Imports and types -/

theorem unbroken_nameFromPath (path : String) : Unbroken (Text.nameFromPath path) := by
  rw [Unbroken, Text.nameFromPath, String.toList_ofList]
  intro feed
  obtain ⟨c, -, same⟩ := List.mem_map.mp feed
  split at same
  · rename_i part
    exact absurd part (by rw [same]; decide)
  · cases same

theorem margin_importText {imported : ImportedModule} (sound : Sound.Imported imported) (short : Unbroken imported.name) :
    Margin (importText imported) := by
  obtain ⟨-, aliases, names⟩ := sound
  have name : Unbroken (importName imported) := by
    unfold importName
    split
    · rename_i given
      exact unbroken_of_name (aliases _ given)
    · exact unbroken_nameFromPath _
    · exact short
  have source : Fits (Text.quoted imported.name) := fits_of_flat ((Unbroken.append (by decide) short).append (by decide))
  have listed : Fits (Text.braced (Text.commaSeparated imported.exposing)) :=
    fits_of_flat (unbroken_commaSeparated fun name member => unbroken_of_name (names name member)).braced
  have everything : Leads ("import * as " ++ importName imported ++ " from " ++ Text.quoted imported.name ++ ";") :=
    (((Leads.append (by decide) (fits_of_flat name)).append (by decide)).append source).append (by decide)
  have exposing : Leads ("import " ++ Text.braced (Text.commaSeparated imported.exposing) ++ " from " ++
      Text.quoted imported.name ++ ";") :=
    (((Leads.append (by decide) listed).append (by decide)).append source).append (by decide)
  unfold importText
  dsimp only
  split
  · exact everything.margin
  · split
    · exact everything.margin.below exposing.margin
    · exact exposing.margin

theorem unbroken_typedField {field : TypedField} (sound : Sound.TypedField field) : Unbroken (typedField field) :=
  ((unbroken_of_name sound.1).append (by decide)).append (unbroken_declared _ (unbroken_type _ sound.2))

/-- Typed fields on lines of their own. -/
theorem fits_fieldLines {fields : List TypedField} (sound : ∀ field ∈ fields, Sound.TypedField field) :
    Fits (String.join ((fields.map typedField).map fun field => "\n" ++ Text.indentation ++ field ++ ";")) := by
  induction fields with
  | nil => decide
  | cons field rest step =>
    obtain ⟨first, others⟩ := List.forall_mem_cons.mp sound
    rw [List.map_cons, List.map_cons, String.join_cons]
    exact ((Fits.append (by decide) (fits_of_flat (unbroken_typedField first))).append (by decide)).append (step others)

theorem unbroken_argument {fields : List TypedField} (sound : ∀ field ∈ fields, Sound.TypedField field) :
    Unbroken (Text.braced (Text.commaSeparated (fields.map typedField))) :=
  (unbroken_commaSeparated (List.forall_mem_map.mpr fun field member => unbroken_typedField (sound field member))).braced

theorem unbroken_tagTypeName {tag : Tag} (sound : Sound.Tag tag) : Unbroken (tagTypeName tag) := by
  refine unbroken_declared _ ⟨unbroken_of_name sound.1, Ty.unbrokenEach_iff.mpr fun type member => ?_⟩
  obtain ⟨field, among, rfl⟩ := List.mem_map.mp (List.mem_of_mem_filter member)
  exact unbroken_type _ (sound.2 field among).2

theorem start_tagBody (tag : Tag) : (tagBody tag).toList.head?.any (· != 'e') = true := by
  have front : ∀ {text : String}, text.toList.head? = some ' ' → ∀ other, (text ++ other).toList.head? = some ' ' := by
    intro text start other
    rw [String.toList_append, List.head?_append, start]
    rfl
  have start : (tagBody tag).toList.head? = some ' ' := front (front (by decide) _) _
  rw [start]
  rfl

theorem margin_tagText (dialect : Dialect) {tag : Tag} (sound : Sound.Tag tag) : Margin (tagText dialect tag) := by
  have name := unbroken_of_name sound.1
  have quoted : Fits (Text.quoted tag.name) := fits_of_flat ((Unbroken.append (by decide) name).append (by decide))
  have body : Fits (tagBody tag) := (Fits.append (by decide) quoted).append (by decide)
  have start := start_tagBody tag
  cases dialect with
  | javaScript =>
    have head : Margin ("function " ++ tag.name ++ "(args) \x7b\n") :=
      (Leads.append (by decide) (fits_of_flat name)).open _ (by decide)
    unfold tagText
    exact (head.append _ body start).margin
  | typeScript =>
    have type := fits_of_flat (unbroken_tagTypeName sound)
    have argument : Fits (if (tag.fields.map typedField).isEmpty then "\x7b\x7d"
        else Text.braced (Text.commaSeparated (tag.fields.map typedField))) := by
      split
      · decide
      · exact fits_of_flat (unbroken_argument sound.2)
    have opened : Margin ("type " ++ tagTypeName tag ++ " = \x7b\n") := (Leads.append (by decide) type).open _ (by decide)
    have filled := ((((opened.append Text.indentation (by decide) (by decide)).sign "kind: " (by decide)).append quoted).sign
      ";" (by decide)).append (fits_fieldLines sound.2)
    have ended := filled.open "\n\x7d;\n\n" (by decide)
    have made := (((((ended.append "function " (by decide) (by decide)).append type).sign "(args: " (by decide)).append
      argument).sign "): " (by decide)).append type
    unfold tagText
    exact ((made.open " \x7b\n" (by decide)).append _ body start).margin

theorem margin_unionText (dialect : Dialect) {union : UnionType} (type : union.type.Unbroken)
    (sound : ∀ tag ∈ union.tags, Sound.Tag tag) : Margin (unionText dialect union) := by
  refine margin_intercalate ['\n'] rfl (by decide) (by decide) (List.forall_mem_append.mpr ⟨?_, ?_⟩)
  · exact List.forall_mem_map.mpr fun tag member => margin_tagText dialect (sound tag member)
  · have names : Unbroken (String.intercalate " | " (union.tags.map tagTypeName)) :=
      unbroken_intercalate (by decide) (List.forall_mem_map.mpr fun tag member => unbroken_tagTypeName (sound tag member))
    split
    · refine List.forall_mem_singleton.mpr (Leads.margin ?_)
      exact (((Leads.append (by decide) (fits_of_flat (unbroken_declared _ type))).append (by decide)).append
        (fits_of_flat names)).append (by decide)
    · nofun

theorem margin_aliasText (dialect : Dialect) {named : TypeAlias} (type : named.type.Unbroken)
    (sound : ∀ field ∈ named.properties, Sound.TypedField field) : Margin (aliasText dialect named) := by
  have name := fits_of_flat (unbroken_declared _ type)
  cases dialect with
  | javaScript =>
    have head : Margin ("function " ++ declared named.type ++ "(args) \x7b\n") :=
      (Leads.append (by decide) name).open _ (by decide)
    exact (head.append _ (by decide) (by decide)).margin
  | typeScript =>
    have argument : Fits (if (named.properties.map typedField).isEmpty then "\x7b \x7d"
        else Text.braced (Text.commaSeparated (named.properties.map typedField))) := by
      split
      · decide
      · exact fits_of_flat (unbroken_argument sound)
    have opened : Leads ("type " ++ declared named.type ++ " = \x7b") := (Leads.append (by decide) name).append (by decide)
    have ended := (opened.append (fits_fieldLines sound)).open "\n\x7d\n\n" (by decide)
    have made := (((((ended.append "function " (by decide) (by decide)).append name).sign "(args: " (by decide)).append
      argument).sign "): " (by decide)).append name
    exact ((made.open " \x7b\n" (by decide)).append _ (by decide) (by decide)).margin

/-! ### Heads of definitions -/

theorem unbroken_binder (dialect : Dialect) {name : String} (flat : Unbroken name) {type : Ty} (own : type.Unbroken) :
    Unbroken (binder dialect name type) := by
  unfold binder
  split
  · exact (flat.append (by decide)).append (unbroken_annotated type own)
  · exact flat

theorem unbroken_parameters (dialect : Dialect) {index : Nat} {names : List String} {types : List Ty}
    (sound : ∀ name ∈ names, Sound.Name name) (own : ∀ type ∈ types, type.Unbroken) :
    ∀ given ∈ Grammar.nameParameters index names types, Unbroken (parameter dialect given) := by
  induction types generalizing index names with
  | nil => cases names <;> nofun
  | cons type rest step =>
    obtain ⟨first, others⟩ := List.forall_mem_cons.mp own
    cases names with
    | nil =>
      refine List.forall_mem_cons.mpr ⟨unbroken_binder dialect ?_ first, step nofun others⟩
      exact Unbroken.append (by decide) (unbroken_toString index)
    | cons name more =>
      obtain ⟨isName, later⟩ := List.forall_mem_cons.mp sound
      exact List.forall_mem_cons.mpr ⟨unbroken_binder dialect (unbroken_of_name isName) first, step later others⟩

theorem leads_definitionHead (dialect : Dialect) {name : String} (isName : Sound.Name name) {parameters : List Parameter}
    (sound : Sound.Parameters parameters) {returnType : Ty} (returns : Sound.Annotation returnType) :
    Leads (definitionHead dialect name parameters returnType) := by
  obtain ⟨names, types, -, -, areNames, annotations, rfl⟩ := sound
  have own : ∀ type ∈ types, type.Unbroken := fun type member => unbroken_type type (annotations type member)
  have result := unbroken_type returnType returns
  have each : ∀ given ∈ Grammar.nameParameters 0 names types, Unbroken (parameter dialect given) :=
    unbroken_parameters dialect areNames own
  have arguments := (unbroken_commaSeparated (List.forall_mem_map.mpr each)).parenthesised
  have generic : ∀ name ∈ typeParameters ((Grammar.nameParameters 0 names types).map Parameter.type ++ [returnType]),
      Unbroken name := by
    intro name member
    rw [Sound.types_nameParameters, typeParameters, List.mem_eraseDups] at member
    exact unbroken_variablesOfEach _ (Ty.unbrokenEach_iff.mpr
      (List.forall_mem_append.mpr ⟨own, List.forall_mem_singleton.mpr result⟩)) name (List.mem_of_mem_filter member)
  have start : Leads ("function " ++ name) := Leads.append (by decide) (fits_of_flat (unbroken_of_name isName))
  unfold definitionHead
  dsimp only
  split
  · exact (((start.append (fits_of_flat (unbroken_typeArguments generic))).append (fits_of_flat arguments)).append
      (by decide)).append (fits_of_flat (unbroken_annotated returnType result))
  · exact start.append (fits_of_flat arguments)

theorem margin_function (dialect : Dialect) {name : String} {parameters : List Parameter} {returnType : Ty} {result : Body}
    (sound : Sound.Block (.function ⟨name, returnType, parameters, result⟩)) {body : List Statement}
    (inset : InsetBody dialect body) :
    Margin ((Declaration.function (definitionHead dialect name parameters returnType) body).text dialect) := by
  obtain ⟨isName, returns, own⟩ := sound
  exact inset_functionText ['\n'] (leads_definitionHead dialect isName own returns).margin inset

theorem margin_constant (dialect : Dialect) {name : String} {type : Ty} {result : Body}
    (sound : Sound.Block (.constant ⟨name, type, result⟩)) {value : Term} (fits : Fits (value.text dialect)) :
    Margin ((Declaration.constant (binder dialect name type) value).text dialect) := by
  obtain ⟨isName, annotation⟩ := sound
  have named := fits_of_flat (unbroken_binder dialect (unbroken_of_name isName) (unbroken_type type annotation))
  exact ((((Leads.append (by decide) named).append (by decide)).append fits).append (by decide)).margin

theorem margin_verbatim (dialect : Dialect) (margin : Margin text) : Margin ((Declaration.verbatim text).text dialect) :=
  margin

theorem margin_imports (dialect : Dialect) {modules : List ImportedModule} (flat : flatTexts.block (.imports modules)) :
    Margin ((Declaration.verbatim (Text.unlines (modules.map importText))).text dialect) := by
  obtain ⟨⟨imported, rfl, sound⟩, short⟩ := flat
  refine margin_verbatim dialect (margin_unlines (List.forall_mem_singleton.mpr ?_))
  exact margin_importText sound (short imported (List.mem_singleton_self _))

theorem margin_union (dialect : Dialect) {declared : UnionType} (sound : Sound.Block (.union declared)) :
    Margin ((Declaration.verbatim (unionText dialect declared)).text dialect) := by
  obtain ⟨type, -, tags⟩ := sound
  exact margin_verbatim dialect (margin_unionText dialect (unbroken_of_declared type) tags)

theorem margin_alias (dialect : Dialect) {declared : TypeAlias} (sound : Sound.Block (.alias declared)) :
    Margin ((Declaration.verbatim (aliasText dialect declared)).text dialect) := by
  obtain ⟨type, properties⟩ := sound
  exact margin_verbatim dialect (margin_aliasText dialect (unbroken_of_declared type) properties)

/-- A comment leaves an empty line. -/
theorem margin_comment (dialect : Dialect) : Margin ((Declaration.verbatim "").text dialect) :=
  margin_verbatim dialect (List.IsChain.singleton _)

end Declarations

/-! ## Lowering -/

/-- Terms fit into a line, statements are inset, and no line of a declaration starts with an `e`, but those of an exposing
block. -/
def scriptLines (dialect : Dialect) : Assertion where
  term value := Fits (value.text dialect)
  body := InsetBody dialect
  locals := InsetBody dialect
  declaration block declaration := block.isExport = false → Margin (declaration.text dialect)

/-- **What is lowered keeps to its lines.** -/
theorem closed_lines (dialect : Dialect) : (scriptLines dialect).Closed dialect flatTexts where
  value flat := fits_verbatim (flat _ (List.mem_singleton_self _))
  string flat := fits_quoted (flat _ (List.mem_singleton_self _))
  formatString flat := fits_template (flat _ (List.mem_singleton_self _))
  list := fits_array
  range flat := fits_span (flat _ List.mem_cons_self) (flat _ (List.mem_cons_of_mem _ (List.mem_singleton_self _)))
  record flat names := fits_record (names ▸ flat)
  construct flat names := fits_construct (List.forall_mem_cons.mp flat).1 (names ▸ (List.forall_mem_cons.mp flat).2)
  conditional := fits_conditional
  choose := inset_choose
  caseOf temporary _ branches :=
    inset_caseStatements (fun feed => absurd (temporary.word _ feed) (by decide)) _ branches
  application := fits_application
  operation := fits_operationTerm _
  call flat := fits_call (flat _ (List.mem_singleton_self _))
  lambda := fits_function
  lambdaCall := fits_functionCall
  referred flat := (List.forall_mem_append.mp flat).2
  reference flat := fits_member (List.forall_mem_append.mp flat).1
  returning _ := inset_returning _
  immediate := fits_immediate
  append := .append
  nil := insetBody_nil
  cons _ := inset_declaring _
  function flat inset _ := margin_function dialect flat.1 inset
  constant flat fits _ := margin_constant dialect flat.1 fits
  imports flat _ := margin_imports dialect flat
  exports _ := nofun
  union flat _ := margin_union dialect flat.1
  typeAlias flat _ := margin_alias dialect flat.1
  comment _ := margin_comment dialect
  multilineComment _ := margin_comment dialect

end Ecma

end DerwLang
