/-
**Syntax that can be read.**

Not all syntax can be read from some text: names have to be names, a lambda has an argument, a `let` holds definitions.
`Sound.checks` collects what holds everywhere in what the grammar reads.
-/

import DerwLang.Grammar.Declaration
import DerwLang.Proofs.Layout.Everywhere
import DerwLang.Proofs.Layout.Word
import DerwLang.Proofs.Layout.Written

namespace DerwLang

open Grammar

namespace Sound

/-! ## Words -/

/-- The text is a name. -/
def Name (text : String) : Prop :=
  IsWord .identifier text.toList

/-- The text is a number or a boolean. -/
def Literal (text : String) : Prop :=
  IsWord .literal text.toList ∧ text.toList.head? ≠ some '['

/-- The text is a number with a minus before it. -/
def Negative (text : String) : Prop :=
  ∃ c rest, text.toList = '-' :: c :: rest ∧ c.isDigit = true ∧ IsWord .literal (c :: rest)

/-- The text between the quotes makes a quoted text. -/
def Quoted (text : String) : Prop :=
  IsWord .string (Text.quoted text).toList

/-- The text between the backticks makes a format string. -/
def Backquoted (text : String) : Prop :=
  IsWord .formatString (Text.backquoted text).toList

/-- The text is a name in no other module that stands by itself: with a capital it has no dot. -/
def Plain (text : String) : Prop :=
  Text.isCapitalised text = true → Text.hasChar text '.' = false

section Decidable

variable (text : String)

instance : Decidable (Name text) :=
  inferInstanceAs (Decidable (IsWord .identifier text.toList))

instance : Decidable (Quoted text) :=
  inferInstanceAs (Decidable (IsWord .string (Text.quoted text).toList))

instance : Decidable (Backquoted text) :=
  inferInstanceAs (Decidable (IsWord .formatString (Text.backquoted text).toList))

instance : Decidable (Plain text) :=
  inferInstanceAs (Decidable (Text.isCapitalised text = true → Text.hasChar text '.' = false))

end Decidable

/-! ## Types -/

mutual

/-- The type can be read. -/
def Annotation : Ty → Prop
  | .variable name => Name name ∧ Ty.ofName name = .variable name
  | .named name arguments => Name name ∧ (arguments = [] → Ty.ofName name = .named name []) ∧ Annotations arguments
  | .function parts => 2 ≤ parts.length ∧ Annotations parts

/-- All of the types can be read. -/
def Annotations : List Ty → Prop
  | [] => True
  | type :: rest => Annotation type ∧ Annotations rest

end

@[simp]
theorem annotations_iff {types : List Ty} : Annotations types ↔ ∀ type ∈ types, Annotation type := by
  induction types <;> simp_all [Annotations]

/-- A declared type is a name and its parameters. -/
def Declared (type : Ty) : Prop :=
  ∃ (name : String) (parameters : List String), type = .named name (parameters.map Ty.variable) ∧ Name name ∧
    ∀ parameter ∈ parameters, Name parameter

/-- A name and its type. -/
def TypedField (field : DerwLang.TypedField) : Prop :=
  Name field.name ∧ Annotation field.type

/-! ## Patterns -/

/-- A tag with its fields. -/
def TagPattern (pattern : DerwLang.TagPattern) : Prop :=
  Name pattern.tag ∧ Text.isCapitalised pattern.tag = true ∧ ∀ field ∈ pattern.fields, Name field

/-- One part of a list pattern. -/
def ListPart : DerwLang.ListPart → Prop
  | .emptyList => True
  | .string text => Quoted text
  | .formatString text => Backquoted text
  | .name name => Name name ∧ Text.isCapitalised name = false ∧ Text.hasChar name '.' = false
  | .tag pattern => TagPattern pattern

/-- A pattern. -/
def Pattern : DerwLang.Pattern → Prop
  | .tag pattern => TagPattern pattern
  | .string text => Quoted text
  | .formatString text => Backquoted text
  | .emptyList | .otherwise => True
  | .list parts =>
    2 ≤ parts.length ∧ (∀ part ∈ parts, ListPart part) ∧
      ∀ before after, parts = before ++ .emptyList :: after → after = []

/-! ## Expressions -/

/-- The base of a record and the names of its fields. -/
def RecordLiteral (literal : DerwLang.RecordLiteral) : Prop :=
  (∀ name ∈ literal.base, Name name) ∧ ∀ field ∈ literal.fields, Name field.name

/-- A path and a name, read from a dotted name with a capital. -/
def Reference (path : List String) (name : String) : Prop :=
  Name (Written.whole path name) ∧ Text.splitAt '.' (Written.whole path name) = path ++ [name] ∧
    ∃ head rest, path = head :: rest ∧ Text.isCapitalised head = true

/-- What holds of a single expression. -/
def Expression : DerwLang.Expression → Prop
  | .value text => Name text ∧ Plain text ∨ Literal text ∨ Negative text
  | .string text => Quoted text
  | .formatString text => Backquoted text
  | .list _ | .conditional _ _ _ | .binary _ _ _ => True
  | .range first last => (Name first ∨ IsWord .literal first.toList) ∧ (Name last ∨ IsWord .literal last.toList)
  | .record literal => RecordLiteral literal
  | .caseOf _ branches => branches ≠ []
  | .call name arguments => Name name ∧ Text.isCapitalised name = false ∧ arguments ≠ []
  | .lambda ⟨parameters, _⟩ => parameters ≠ [] ∧ ∀ parameter ∈ parameters, Name parameter
  | .lambdaCall _ _ => False
  | .construct tag literal =>
    (Name tag ∧ Text.isCapitalised tag = true ∧ Text.hasChar tag '.' = false) ∧ RecordLiteral literal
  | .reference path (.value name) => Reference path name
  | .reference path (.call name arguments) => Reference path name ∧ arguments ≠ []
  | .reference _ _ => False

/-! ## Declarations -/

/-- One imported module. -/
def Imported (imported : ImportedModule) : Prop :=
  (match imported.origin with
    | .library => Name imported.name
    | .path => Quoted imported.name) ∧
  (∀ name ∈ imported.alias?, Name name) ∧ ∀ name ∈ imported.exposing, Name name

/-- A tag of a union type. -/
def Tag (tag : DerwLang.Tag) : Prop :=
  Name tag.name ∧ ∀ field ∈ tag.fields, TypedField field

/-- The parameters of a function: types, the first of them with the names of the definition. -/
def Parameters (parameters : List Parameter) : Prop :=
  ∃ names types, names ≠ [] ∧ names.length ≤ types.length ∧ (∀ name ∈ names, Name name) ∧
    (∀ type ∈ types, Annotation type) ∧ parameters = nameParameters 0 names types

/-- What holds of a single declaration. -/
def Block : DerwLang.Block → Prop
  | .imports modules => ∃ imported, modules = [imported] ∧ Imported imported
  | .exports names => ∀ name ∈ names, Name name
  | .union declared => Declared declared.type ∧ declared.tags ≠ [] ∧ ∀ tag ∈ declared.tags, Tag tag
  | .alias declared => Declared declared.type ∧ ∀ field ∈ declared.properties, TypedField field
  | .function ⟨name, returnType, parameters, _⟩ => Name name ∧ Annotation returnType ∧ Parameters parameters
  | .constant ⟨name, type, _⟩ => Name name ∧ Annotation type
  | .comment text => IsWord .comment text.toList
  | .multilineComment text => IsWord .multilineComment text.toList

/-- **What holds everywhere in syntax that is read.** -/
def checks : Checks where
  expression := Expression
  pattern := Pattern
  body body := ∀ block ∈ body.locals, isDefinition block = true
  block := Block

/-! ## Parameters -/

/-- The types of the parameters are the given ones. -/
theorem types_nameParameters (index : Nat) (names : List String) (types : List Ty) :
    (nameParameters index names types).map Parameter.type = types := by
  induction types generalizing index names with
  | nil => cases names <;> rfl
  | cons type rest step => cases names <;> simp [nameParameters, Parameter.type, step]

/-- The named parameters have the given names. -/
theorem names_nameParameters {index : Nat} {names : List String} {types : List Ty}
    (enough : names.length ≤ types.length) : Written.argumentNames (nameParameters index names types) = names := by
  induction types generalizing index names with
  | nil =>
    rw [List.length_nil, Nat.le_zero, List.length_eq_zero_iff] at enough
    rw [enough]
    rfl
  | cons type rest step =>
    cases names with
    | nil =>
      have later := @step (index + 1) [] (Nat.zero_le _)
      simpa [nameParameters, Written.argumentNames] using later
    | cons name others =>
      have later := @step (index + 1) others (Nat.le_of_succ_le_succ enough)
      simpa [nameParameters, Written.argumentNames] using later

/-- The types of a function with its result make a function type that can be read. -/
theorem Parameters.annotation {parameters : List Parameter} (sound : Parameters parameters) {returnType : Ty}
    (result : Annotation returnType) :
    Annotation (.function (parameters.map Parameter.type ++ [returnType])) := by
  obtain ⟨names, types, some_, enough, -, annotations, rfl⟩ := sound
  have positive : 0 < names.length := List.length_pos_iff.mpr some_
  rw [types_nameParameters, Annotation, annotations_iff, List.forall_mem_append, List.forall_mem_singleton]
  refine ⟨?_, annotations, result⟩
  rw [List.length_append, List.length_singleton]
  omega

/-- The names of the parameters are names, and there are some. -/
theorem Parameters.names {parameters : List Parameter} (sound : Parameters parameters) :
    Written.argumentNames parameters ≠ [] ∧ ∀ name ∈ Written.argumentNames parameters, Name name := by
  obtain ⟨names, types, some_, enough, areNames, -, rfl⟩ := sound
  rw [names_nameParameters enough]
  exact ⟨some_, areNames⟩

end Sound

end DerwLang
