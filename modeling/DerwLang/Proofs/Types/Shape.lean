/-
**TypeScript types, and the variables in them.**

What is written of a type is a TypeScript type again: a variable, a name with arguments, an array of one of several types,
or a function type (`Shape`). A declaration and an annotation write different parts of a type. Main facts:

* `text_declaredShape`, `text_annotatedShape`: the texts are those of the TypeScript types;
* `mem_variablesOf_of_declared`, `mem_variablesOf_of_annotated`: no variable is written that is not in the type.
-/

import DerwLang.Ecma.Type

namespace DerwLang.Ecma

/-- A TypeScript type. -/
inductive Shape
  | variable (name : String)
  | named (name : String) (arguments : List Shape)
  /-- an array with elements of any of the types -/
  | array (options : List Shape)
  /-- the types of the arguments, and then of the result -/
  | function (parts : List Shape)

/-! ## Texts and variables -/

namespace Shape

mutual

/-- The text of the type. -/
def text : Shape → String
  | .variable name => name
  | .named name arguments => name ++ Ecma.typeArguments (textEach arguments)
  | .array options => arrayType [] (textEach options)
  | .function parts => functionType (textEach parts)

/-- The texts of types. -/
def textEach : List Shape → List String
  | [] => []
  | shape :: rest => shape.text :: textEach rest

end

mutual

/-- The type variables that are written in the type. -/
def written : Shape → List String
  | .variable name => [name]
  | .named _ arguments => writtenEach arguments
  | .array options => writtenEach options
  | .function parts => writtenEach parts

/-- The type variables that are written in types. -/
def writtenEach : List Shape → List String
  | [] => []
  | shape :: rest => shape.written ++ writtenEach rest

end

theorem mem_writtenEach {name : String} {shapes : List Shape} :
    name ∈ writtenEach shapes ↔ ∃ shape ∈ shapes, name ∈ shape.written := by
  induction shapes with
  | nil => simp [writtenEach]
  | cons shape rest step => simp [writtenEach, step]

theorem textEach_map {α : Type} {shape : α → Shape} {spelling : α → String}
    (same : ∀ item, (shape item).text = spelling item) (items : List α) :
    textEach (items.map shape) = items.map spelling := by
  induction items with
  | nil => rfl
  | cons item rest step => rw [List.map_cons, List.map_cons, textEach, step, same]

theorem textEach_variables (names : List String) : textEach (names.map .variable) = names := by
  rw [textEach_map fun name => by rw [text]]
  exact List.map_id names

theorem writtenEach_variables (names : List String) : writtenEach (names.map .variable) = names := by
  induction names with
  | nil => rfl
  | cons name rest step => rw [List.map_cons, writtenEach, step, written, List.singleton_append]

end Shape

open Shape

/-! ## What is written of a type -/

/-- What the elements of an array are, from the arguments of a list type and the named ones among them. A variable in front
decides alone. -/
def elements (arguments : List Ty) (named : List Shape) : List Shape :=
  match arguments with
  | .variable name :: _ => [.variable name]
  | _ => named

mutual

/-- What is written of a type in a declaration. -/
def declaredShape : Ty → Shape
  | .variable name => .variable name
  | .named name arguments =>
    if name == "List" then .array (elements arguments (declaredShapeNamed arguments))
    else .named name ((variableNames arguments).map .variable)
  | .function parts => .function (declaredShapeEach parts)

/-- What is written of types in a declaration. -/
def declaredShapeEach : List Ty → List Shape
  | [] => []
  | type :: rest => declaredShape type :: declaredShapeEach rest

/-- What is written of the named ones of the types in a declaration. -/
def declaredShapeNamed : List Ty → List Shape
  | [] => []
  | type :: rest =>
    let shape := declaredShape type
    match type with
    | .named _ _ => shape :: declaredShapeNamed rest
    | _ => declaredShapeNamed rest

end

mutual

/-- What is written of a type that annotates a value. -/
def annotatedShape : Ty → Shape
  | .named name arguments =>
    if name == "List" then .array (elements arguments (annotatedShapeNamed arguments))
    else .named name (annotatedShapeEach arguments)
  | type => declaredShape type

/-- What is written of types that annotate values. -/
def annotatedShapeEach : List Ty → List Shape
  | [] => []
  | type :: rest => annotatedShape type :: annotatedShapeEach rest

/-- What is written of the named ones of the types that annotate values. -/
def annotatedShapeNamed : List Ty → List Shape
  | [] => []
  | type :: rest =>
    let shape := annotatedShape type
    match type with
    | .named _ _ => shape :: annotatedShapeNamed rest
    | _ => annotatedShapeNamed rest

end

/-! ## Their texts -/

theorem arrayType_elements (arguments : List Ty) (named : List Shape) :
    arrayType [] (textEach (elements arguments named)) = arrayType arguments (textEach named) := by
  match arguments with
  | .variable _ :: _ | [] => rfl
  | .named _ _ :: _ | .function _ :: _ => rcases named with _ | ⟨_, _ | _⟩ <;> rfl

mutual

/-- **The text of a type in a declaration** is that of what is written of it. -/
theorem text_declaredShape : ∀ type : Ty, (declaredShape type).text = declared type
  | .variable _ => rfl
  | .named name arguments => by
    rw [declaredShape, declared]
    split
    · rw [text, arrayType_elements, text_declaredShapeNamed]
    · rw [text, textEach_variables]
  | .function parts => by rw [declaredShape, declared, text, text_declaredShapeEach]

theorem text_declaredShapeEach : ∀ types : List Ty, textEach (declaredShapeEach types) = declaredEach types
  | [] => rfl
  | type :: rest => by
    rw [declaredShapeEach, declaredEach, textEach, text_declaredShape type, text_declaredShapeEach rest]

theorem text_declaredShapeNamed : ∀ types : List Ty, textEach (declaredShapeNamed types) = declaredNamed types
  | [] => rfl
  | .named name arguments :: rest => by
    rw [declaredShapeNamed, declaredNamed, textEach, text_declaredShape (.named name arguments),
      text_declaredShapeNamed rest]
  | .variable _ :: rest => text_declaredShapeNamed rest
  | .function _ :: rest => text_declaredShapeNamed rest

end

mutual

/-- **The text of a type that annotates a value** is that of what is written of it. -/
theorem text_annotatedShape : ∀ type : Ty, (annotatedShape type).text = annotated type
  | .variable name => text_declaredShape (.variable name)
  | .named name arguments => by
    rw [annotatedShape, annotated]
    split
    · rw [text, arrayType_elements, text_annotatedShapeNamed]
    · rw [text, text_annotatedShapeEach]
  | .function parts => text_declaredShape (.function parts)

theorem text_annotatedShapeEach : ∀ types : List Ty, textEach (annotatedShapeEach types) = annotatedEach types
  | [] => rfl
  | type :: rest => by
    rw [annotatedShapeEach, annotatedEach, textEach, text_annotatedShape type, text_annotatedShapeEach rest]

theorem text_annotatedShapeNamed : ∀ types : List Ty, textEach (annotatedShapeNamed types) = annotatedNamed types
  | [] => rfl
  | .named name arguments :: rest => by
    rw [annotatedShapeNamed, annotatedNamed, textEach, text_annotatedShape (.named name arguments),
      text_annotatedShapeNamed rest]
  | .variable _ :: rest => text_annotatedShapeNamed rest
  | .function _ :: rest => text_annotatedShapeNamed rest

end

/-! ## Their variables -/

section Variables

variable {name : String}

theorem mem_variableNames {types : List Ty} : name ∈ variableNames types ↔ .variable name ∈ types := by
  rw [variableNames, List.mem_filterMap]
  refine ⟨fun ⟨type, member, found⟩ => ?_, fun member => ⟨.variable name, member, rfl⟩⟩
  match type with
  | .variable other => exact Option.some.inj found ▸ member

theorem mem_variablesOfEach {types : List Ty} : name ∈ variablesOfEach types ↔ ∃ type ∈ types, name ∈ variablesOf type := by
  induction types with
  | nil => simp [variablesOfEach]
  | cons type rest step => simp [variablesOfEach, step]

/-- The elements of an array are a variable in front, or named arguments. -/
theorem mem_elements {arguments : List Ty} {named : List Shape} (found : name ∈ writtenEach (elements arguments named)) :
    name ∈ variableNames arguments ∨ name ∈ writtenEach named := by
  match arguments with
  | .variable head :: rest =>
    obtain rfl : name = head := List.mem_singleton.mp found
    exact .inl (mem_variableNames.mpr List.mem_cons_self)
  | [] | .named _ _ :: _ | .function _ :: _ => exact .inr found

theorem mem_variablesOfEach_of_variableNames {types : List Ty} (found : name ∈ variableNames types) :
    name ∈ variablesOfEach types :=
  mem_variablesOfEach.mpr ⟨.variable name, mem_variableNames.mp found, List.mem_singleton_self name⟩

mutual

/-- **A declaration writes variables of the type only.** -/
theorem mem_variablesOf_of_declared : ∀ type : Ty, name ∈ (declaredShape type).written → name ∈ variablesOf type
  | .variable _ => id
  | .named head arguments => by
    rw [declaredShape]
    split
    · exact fun found => (mem_elements found).elim mem_variablesOfEach_of_variableNames
        (mem_variablesOf_of_declaredNamed arguments)
    · intro found
      rw [written, writtenEach_variables] at found
      exact mem_variablesOfEach_of_variableNames found
  | .function parts => mem_variablesOf_of_declaredEach parts

theorem mem_variablesOf_of_declaredEach : ∀ types : List Ty,
    name ∈ writtenEach (declaredShapeEach types) → name ∈ variablesOfEach types
  | [] => id
  | type :: rest => fun found => List.mem_append.mpr ((List.mem_append.mp found).imp (mem_variablesOf_of_declared type)
      (mem_variablesOf_of_declaredEach rest))

theorem mem_variablesOf_of_declaredNamed : ∀ types : List Ty,
    name ∈ writtenEach (declaredShapeNamed types) → name ∈ variablesOfEach types
  | [] => id
  | .named head arguments :: rest => fun found => List.mem_append.mpr ((List.mem_append.mp found).imp
      (mem_variablesOf_of_declared (.named head arguments)) (mem_variablesOf_of_declaredNamed rest))
  | .variable _ :: rest => fun found => List.mem_append_right _ (mem_variablesOf_of_declaredNamed rest found)
  | .function _ :: rest => fun found => List.mem_append_right _ (mem_variablesOf_of_declaredNamed rest found)

end

mutual

/-- **An annotation writes variables of the type only.** -/
theorem mem_variablesOf_of_annotated : ∀ type : Ty, name ∈ (annotatedShape type).written → name ∈ variablesOf type
  | .variable _ => id
  | .named head arguments => by
    rw [annotatedShape]
    split
    · exact fun found => (mem_elements found).elim mem_variablesOfEach_of_variableNames
        (mem_variablesOf_of_annotatedNamed arguments)
    · exact mem_variablesOf_of_annotatedEach arguments
  | .function parts => mem_variablesOf_of_declared (.function parts)

theorem mem_variablesOf_of_annotatedEach : ∀ types : List Ty,
    name ∈ writtenEach (annotatedShapeEach types) → name ∈ variablesOfEach types
  | [] => id
  | type :: rest => fun found => List.mem_append.mpr ((List.mem_append.mp found).imp (mem_variablesOf_of_annotated type)
      (mem_variablesOf_of_annotatedEach rest))

theorem mem_variablesOf_of_annotatedNamed : ∀ types : List Ty,
    name ∈ writtenEach (annotatedShapeNamed types) → name ∈ variablesOfEach types
  | [] => id
  | .named head arguments :: rest => fun found => List.mem_append.mpr ((List.mem_append.mp found).imp
      (mem_variablesOf_of_annotated (.named head arguments)) (mem_variablesOf_of_annotatedNamed rest))
  | .variable _ :: rest => fun found => List.mem_append_right _ (mem_variablesOf_of_annotatedNamed rest found)
  | .function _ :: rest => fun found => List.mem_append_right _ (mem_variablesOf_of_annotatedNamed rest found)

end

end Variables

end DerwLang.Ecma
