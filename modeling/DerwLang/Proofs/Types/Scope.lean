/-
**Which type variables are in scope in TypeScript.**

A function lists the variables of its signature behind its name. The other declarations list what is written of the type
that they declare: for a tag these are the fields that are variables themselves, while the types of the fields may hold
others. Main facts:

* `firstOccurrences_typeParameters`: the type parameters of a function are the variables of its types, each once and in
  order;
* `variables_in_scope`: the variables of every function are in scope, and which tags, unions and aliases have theirs in
  scope;
* `variable_out_of_scope`: a tag with a field of type `Maybe a` does not have `a` in scope.
-/

import DerwLang.Ecma.Lowering
import DerwLang.Proofs.Accepted.Declaration
import DerwLang.Proofs.Layout.Nested
import DerwLang.Proofs.Types.Shape

namespace DerwLang.Ecma

open Shape

/-! ## Declarations that state types -/

/-- The names of the type parameters in a heading, which stand in angle brackets. -/
def Shape.parameters : Shape → List String
  | .named _ arguments => arguments.filterMap fun
    | .variable name => some name
    | _ => none
  | .variable _ | .array _ | .function _ => []

/-- What a declaration states: the heading that it declares, and the types that stand in it. -/
structure Stated where
  heading : Shape
  types : List Shape

/-- The texts of the heading and of the types are these. -/
def Stated.Spells (stated : Stated) (heading : String) (types : List String) : Prop :=
  stated.heading.text = heading ∧ textEach stated.types = types

/-- Each type variable that is written in the declaration is among its type parameters. -/
def Stated.InScope (stated : Stated) : Prop :=
  ∀ name ∈ writtenEach (stated.heading :: stated.types), name ∈ stated.heading.parameters

/-- The types in the signature of a function. -/
def signatureTypes (definition : FunctionDefinition) : List Ty :=
  definition.parameters.map Parameter.type ++ [definition.returnType]

/-- What the head of a function states. -/
def statedFunction (definition : FunctionDefinition) : Stated where
  heading := .named definition.name ((typeParameters (signatureTypes definition)).map .variable)
  types := (signatureTypes definition).map annotatedShape

/-- What is written of a tag as a type. -/
def tagHeading (tag : Tag) : Shape :=
  declaredShape (.named tag.name ((tag.fields.map TypedField.type).filter fun type => !type.name?.any Ty.isBuiltinName))

/-- What the type of a tag states, and the function that makes its values. -/
def statedTag (tag : Tag) : Stated where
  heading := tagHeading tag
  types := tag.fields.map fun field => declaredShape field.type

/-- What a union type states. -/
def statedUnion (union : UnionType) : Stated where
  heading := declaredShape union.type
  types := union.tags.map tagHeading

/-- What an alias states, and the function that makes its values. -/
def statedAlias (named : TypeAlias) : Stated where
  heading := declaredShape named.type
  types := named.properties.map fun property => declaredShape property.type

/-! ## Their texts -/

/-- The head of a function spells what it states. -/
theorem spells_function (definition : FunctionDefinition) :
    (statedFunction definition).Spells
      (definition.name ++ typeArguments (typeParameters (signatureTypes definition)))
      ((signatureTypes definition).map annotated) := by
  refine ⟨?_, textEach_map text_annotatedShape (signatureTypes definition)⟩
  rw [statedFunction, text, textEach_variables]

theorem text_tagHeading (tag : Tag) : (tagHeading tag).text = tagTypeName tag :=
  text_declaredShape _

theorem text_field (field : TypedField) : (declaredShape field.type).text = declared field.type :=
  text_declaredShape field.type

theorem spells_tag (tag : Tag) :
    (statedTag tag).Spells (tagTypeName tag) (tag.fields.map fun field => declared field.type) :=
  ⟨text_tagHeading tag, textEach_map text_field tag.fields⟩

theorem spells_union (union : UnionType) :
    (statedUnion union).Spells (declared union.type) (union.tags.map tagTypeName) :=
  ⟨text_declaredShape union.type, textEach_map text_tagHeading union.tags⟩

theorem spells_alias (named : TypeAlias) :
    (statedAlias named).Spells (declared named.type) (named.properties.map fun property => declared property.type) :=
  ⟨text_declaredShape named.type, textEach_map text_field named.properties⟩

/-! ## First occurrences -/

/-- The parameters are the variables that occur, each once, and in order of first occurrence. -/
structure FirstOccurrences (parameters occurrences : List String) : Prop where
  same : ∀ name, name ∈ parameters ↔ name ∈ occurrences
  once : parameters.Nodup
  ordered : parameters.Pairwise fun earlier later => occurrences.idxOf earlier < occurrences.idxOf later

/-- Leaving names out does not change which of two others comes first. -/
theorem idxOf_lt_of_filter {test : String → Bool} {first second : String} (keepFirst : test first = true)
    (keepSecond : test second = true) {names : List String}
    (before : (names.filter test).idxOf first < (names.filter test).idxOf second) :
    names.idxOf first < names.idxOf second := by
  induction names with
  | nil => exact absurd before (Nat.lt_irrefl 0)
  | cons name rest step =>
    by_cases isFirst : name = first
    · subst isFirst
      have differs : name ≠ second := by
        rintro rfl
        exact Nat.lt_irrefl _ before
      rw [List.idxOf_cons_self, List.idxOf_cons_ne rest differs]
      exact Nat.succ_pos _
    · by_cases isSecond : name = second
      · subst isSecond
        rw [List.filter_cons_of_pos keepSecond, List.idxOf_cons_self] at before
        exact absurd before (Nat.not_lt_zero _)
      · rw [List.idxOf_cons_ne rest isFirst, List.idxOf_cons_ne rest isSecond]
        refine Nat.succ_lt_succ (step ?_)
        rw [List.filter_cons] at before
        split at before
        · rw [List.idxOf_cons_ne _ isFirst, List.idxOf_cons_ne _ isSecond] at before
          exact Nat.lt_of_succ_lt_succ before
        · exact before

/-- Erasing the later occurrences of names leaves them in the order of their first ones. -/
theorem ordered_eraseDups (names : List String) :
    names.eraseDups.Pairwise fun earlier later => names.idxOf earlier < names.idxOf later := by
  -- on the length, since erasing goes on with what is left of the rest when the first name is taken out of it
  induction length : names.length using Nat.strongRecOn generalizing names with
  | _ size step =>
    cases names with
    | nil => exact .nil
    | cons name rest =>
      have shorter : (rest.filter fun other => !other == name).length < size := by
        rw [← length, List.length_cons]
        exact Nat.lt_succ_of_le (List.length_filter_le _ _)
      have others : ∀ other ∈ (rest.filter fun other => !other == name).eraseDups, (!other == name) = true :=
        fun other member => (List.mem_filter.mp (List.mem_eraseDups.mp member)).2
      have differs : ∀ other ∈ (rest.filter fun other => !other == name).eraseDups, name ≠ other := by
        rintro other member rfl
        simpa using others name member
      rw [List.eraseDups_cons, List.pairwise_cons]
      refine ⟨fun other member => ?_, (step _ shorter _ rfl).imp_of_mem fun {earlier later} first second before => ?_⟩
      · rw [List.idxOf_cons_self, List.idxOf_cons_ne rest (differs other member)]
        exact Nat.succ_pos _
      · rw [List.idxOf_cons_ne rest (differs earlier first), List.idxOf_cons_ne rest (differs later second)]
        exact Nat.succ_lt_succ (idxOf_lt_of_filter (others earlier first) (others later second) before)

theorem firstOccurrences_eraseDups (names : List String) : FirstOccurrences names.eraseDups names where
  same _ := List.mem_eraseDups
  once := by
    refine List.Pairwise.imp (fun {earlier later} (before : names.idxOf earlier < names.idxOf later) => ?_)
      (ordered_eraseDups names)
    rintro rfl
    exact Nat.lt_irrefl _ before
  ordered := ordered_eraseDups names

mutual

/-- No variable of a type that is read is built in. -/
theorem not_builtin_of_variablesOf : ∀ {type : Ty}, Sound.Annotation type → ∀ name ∈ variablesOf type,
    Ty.isBuiltinName name = false
  | .variable name, sound => by
    intro other member
    obtain rfl := List.mem_singleton.mp member
    have isVariable := sound.2
    rw [Ty.ofName] at isVariable
    cases builtin : Ty.isBuiltinName other with
    | false => rfl
    | true => simp [builtin, Ty.plain] at isVariable
  | .named _ arguments, sound => not_builtin_of_variablesOfEach sound.2.2
  | .function parts, sound => not_builtin_of_variablesOfEach sound.2

theorem not_builtin_of_variablesOfEach : ∀ {types : List Ty}, Sound.Annotations types →
    ∀ name ∈ variablesOfEach types, Ty.isBuiltinName name = false
  | [], _ => nofun
  | _ :: _, sound => List.forall_mem_append.mpr
    ⟨not_builtin_of_variablesOf sound.1, not_builtin_of_variablesOfEach sound.2⟩

end

/-- **The type parameters of a signature are its variables**, each once and in order of first occurrence. -/
theorem firstOccurrences_typeParameters {types : List Ty} (sound : ∀ type ∈ types, Sound.Annotation type) :
    FirstOccurrences (typeParameters types) (variablesOfEach types) := by
  have all : (variablesOfEach types).filter (fun name => !Ty.isBuiltinName name) = variablesOfEach types := by
    refine List.filter_eq_self.mpr fun name member => ?_
    rw [not_builtin_of_variablesOfEach (Sound.annotations_iff.mpr sound) name member]
    rfl
  rw [typeParameters, all]
  exact firstOccurrences_eraseDups _

/-! ## Scopes -/

theorem parameters_variables (name : String) (names : List String) :
    (Shape.named name (names.map .variable)).parameters = names := by
  rw [Shape.parameters, List.filterMap_map]
  exact List.filterMap_some

/-- The type parameters of a declared type are those of its arguments that are variables, but a list has none. -/
theorem mem_parameters_declared {head name : String} {arguments : List Ty} :
    name ∈ (declaredShape (.named head arguments)).parameters ↔ head ≠ "List" ∧ .variable name ∈ arguments := by
  rw [declaredShape]
  split
  · rename_i isList
    exact ⟨nofun, fun found => absurd (beq_iff_eq.mp isList) found.1⟩
  · rename_i other
    rw [parameters_variables, mem_variableNames]
    exact ⟨fun member => ⟨fun same => other (beq_iff_eq.mpr same), member⟩, And.right⟩

theorem mem_writtenEach_map {α : Type} {items : List α} {shape : α → Shape} {name : String} :
    name ∈ writtenEach (items.map shape) ↔ ∃ item ∈ items, name ∈ (shape item).written := by
  simp only [mem_writtenEach, List.mem_map, exists_exists_and_eq_and]

theorem mem_declaredShapeNamed {name : String} {types : List Ty} (found : name ∈ writtenEach (declaredShapeNamed types)) :
    ∃ type ∈ types, name ∈ (declaredShape type).written := by
  induction types with
  | nil => cases found
  | cons type rest step =>
    have later : name ∈ writtenEach (declaredShapeNamed rest) →
        ∃ other ∈ type :: rest, name ∈ (declaredShape other).written := fun inside =>
      have ⟨other, member, written⟩ := step inside
      ⟨other, List.mem_cons_of_mem _ member, written⟩
    cases type with
    | named => exact (List.mem_append.mp found).elim (fun inside => ⟨_, List.mem_cons_self, inside⟩) later
    | «variable» | function => exact later found

/-- A variable that is written of a named type is written of one of its arguments. -/
theorem mem_written_declared {head name : String} {arguments : List Ty}
    (found : name ∈ (declaredShape (.named head arguments)).written) :
    ∃ type ∈ arguments, name ∈ (declaredShape type).written := by
  have direct : name ∈ variableNames arguments → ∃ type ∈ arguments, name ∈ (declaredShape type).written :=
    fun member => ⟨.variable name, mem_variableNames.mp member, List.mem_singleton_self name⟩
  rw [declaredShape] at found
  split at found
  · exact (mem_elements found).elim direct mem_declaredShapeNamed
  · rw [written, writtenEach_variables] at found
    exact direct found

/-- **The variables of a function are in scope.** -/
theorem inScope_function {definition : FunctionDefinition}
    (sound : ∀ type ∈ signatureTypes definition, Sound.Annotation type) : (statedFunction definition).InScope := by
  intro name found
  show name ∈ (Shape.named _ _).parameters
  rw [parameters_variables]
  rw [writtenEach, statedFunction, written, writtenEach_variables, List.mem_append, mem_writtenEach_map] at found
  rcases found with isParameter | ⟨type, member, written⟩
  · exact isParameter
  · rw [(firstOccurrences_typeParameters sound).same, mem_variablesOfEach]
    exact ⟨type, member, mem_variablesOf_of_annotated type written⟩

/-- **The variables of a tag are in scope** just in case each that is written in a field is the type of a field. -/
theorem inScope_tag {tag : Tag} (sound : ∀ field ∈ tag.fields, Sound.TypedField field) :
    (statedTag tag).InScope ↔ ∀ field ∈ tag.fields, ∀ name ∈ (declaredShape field.type).written,
      tag.name ≠ "List" ∧ ∃ other ∈ tag.fields, other.type = .variable name := by
  have parameter : ∀ name, name ∈ (statedTag tag).heading.parameters ↔
      tag.name ≠ "List" ∧ ∃ other ∈ tag.fields, other.type = .variable name := by
    intro name
    rw [statedTag, tagHeading, mem_parameters_declared, List.mem_filter, List.mem_map]
    refine and_congr_right fun _ => ⟨And.left, fun ⟨other, member, same⟩ => ⟨⟨other, member, same⟩, ?_⟩⟩
    have annotation : Sound.Annotation (.variable name) := same ▸ (sound other member).2
    have plain := not_builtin_of_variablesOf annotation name (List.mem_singleton_self name)
    simp [Ty.name?, plain]
  refine ⟨fun inScope field member name written => (parameter name).mp (inScope name ?_), fun each name found => ?_⟩
  · exact List.mem_append_right _ (mem_writtenEach_map.mpr ⟨field, member, written⟩)
  · rw [parameter]
    rcases List.mem_append.mp found with inHeading | inField
    · obtain ⟨type, member, written⟩ := mem_written_declared inHeading
      obtain ⟨field, among, rfl⟩ := List.mem_map.mp (List.mem_filter.mp member).1
      exact each field among name written
    · obtain ⟨field, member, written⟩ := mem_writtenEach_map.mp inField
      exact each field member name written

theorem variablesOfEach_variables (names : List String) : variablesOfEach (names.map .variable) = names := by
  induction names with
  | nil => rfl
  | cons name rest step => rw [List.map_cons, variablesOfEach, step, variablesOf, List.singleton_append]

/-- **The variables below a declared type are in scope** just in case the type declares them; what is called a list
declares none. -/
theorem inScope_declared {type : Ty} (sound : Sound.Declared type) (types : List Shape) :
    (⟨declaredShape type, types⟩ : Stated).InScope ↔
      (type.name? = some "List" → variablesOf type = []) ∧ ∀ name ∈ writtenEach types, name ∈ variablesOf type := by
  obtain ⟨head, names, rfl, -, -⟩ := sound
  have parameter : ∀ name, name ∈ (declaredShape (.named head (names.map .variable))).parameters ↔
      head ≠ "List" ∧ name ∈ names := by
    intro name
    rw [mem_parameters_declared]
    simp
  rw [variablesOf, variablesOfEach_variables, Ty.name?, Option.some.injEq]
  constructor
  · intro inScope
    refine ⟨fun isList => ?_, fun name found => ((parameter name).mp (inScope name (List.mem_append_right _ found))).2⟩
    cases names with
    | nil => rfl
    | cons first rest =>
      have inHeading : first ∈ (declaredShape (.named head ((first :: rest).map .variable))).written := by
        rw [isList]
        exact List.mem_singleton_self first
      exact absurd isList ((parameter first).mp (inScope first (List.mem_append_left _ inHeading))).1
  · rintro ⟨noList, declares⟩ name found
    have member : name ∈ names := by
      rcases List.mem_append.mp found with inHeading | below
      · obtain ⟨type, among, written⟩ := mem_written_declared inHeading
        obtain ⟨other, member, rfl⟩ := List.mem_map.mp among
        exact List.mem_singleton.mp written ▸ member
      · exact declares name below
    exact (parameter name).mpr ⟨fun isList => List.not_mem_nil (noList isList ▸ member), member⟩

/-! ## Sources -/

/-- What holds of the type variables of a tag: they are in scope just in case each that is written in a field is the type of
a field, the tag not being called a list. -/
def ScopedTag (tag : Tag) : Prop :=
  (statedTag tag).Spells (tagTypeName tag) (tag.fields.map fun field => declared field.type) ∧
    ((statedTag tag).InScope ↔ ∀ field ∈ tag.fields, ∀ name ∈ (declaredShape field.type).written,
      tag.name ≠ "List" ∧ ∃ other ∈ tag.fields, other.type = .variable name)

/-- What holds of the type variables of a declaration: those of a function are in scope, and its type parameters are the
variables of its signature; those of a union and of an alias are in scope just in case the declared type has them, and has
none when it is called a list. -/
def Scoped : Block → Prop
  | .function definition =>
    let types := signatureTypes definition
    (statedFunction definition).Spells (definition.name ++ typeArguments (typeParameters types)) (types.map annotated) ∧
      (statedFunction definition).InScope ∧ FirstOccurrences (typeParameters types) (variablesOfEach types)
  | .union union =>
    (∀ tag ∈ union.tags, ScopedTag tag) ∧
      (statedUnion union).Spells (declared union.type) (union.tags.map tagTypeName) ∧
        ((statedUnion union).InScope ↔
          (union.type.name? = some "List" → variablesOf union.type = []) ∧
            ∀ tag ∈ union.tags, ∀ name ∈ (tagHeading tag).written, name ∈ variablesOf union.type)
  | .alias synonym =>
    (statedAlias synonym).Spells (declared synonym.type) (synonym.properties.map fun property => declared property.type) ∧
      ((statedAlias synonym).InScope ↔
        (synonym.type.name? = some "List" → variablesOf synonym.type = []) ∧
          ∀ property ∈ synonym.properties, ∀ name ∈ (declaredShape property.type).written, name ∈ variablesOf synonym.type)
  | .constant _ | .imports _ | .exports _ | .comment _ | .multilineComment _ => True

theorem scopedTag {tag : Tag} (sound : Sound.Tag tag) : ScopedTag tag :=
  ⟨spells_tag tag, inScope_tag sound.2⟩

/-- The types in the signature of a sound function are sound. -/
theorem sound_signatureTypes {definition : FunctionDefinition} (sound : Sound.Block (.function definition)) :
    ∀ type ∈ signatureTypes definition, Sound.Annotation type := by
  cases definition
  obtain ⟨-, returnType, parameters⟩ := sound
  have whole := (parameters.annotation returnType).2
  rwa [Sound.annotations_iff] at whole

/-- What holds of each variable of some types holds of the variables of each type. -/
theorem forall_written_map {α : Type} {items : List α} {shape : α → Shape} {holds : String → Prop} :
    (∀ name ∈ writtenEach (items.map shape), holds name) ↔ ∀ item ∈ items, ∀ name ∈ (shape item).written, holds name := by
  simp only [mem_writtenEach_map]
  exact ⟨fun all item member name found => all name ⟨item, member, found⟩,
    fun all name ⟨item, member, found⟩ => all item member name found⟩

/-- **Which type variables are in scope**, for all declarations of a source. -/
theorem variables_in_scope (source : String) : (parse source).Everywhere (Checks.ofBlock Scoped) := by
  refine (sound_parse source).declarations fun block everywhere => ?_
  have sound : Sound.Block block := everywhere.here
  match block with
  | .function definition =>
    have types := sound_signatureTypes sound
    exact ⟨spells_function definition, inScope_function types, firstOccurrences_typeParameters types⟩
  | .union union =>
    obtain ⟨isType, -, tags⟩ := sound
    refine ⟨fun tag member => scopedTag (tags tag member), spells_union union, ?_⟩
    rw [← forall_written_map]
    exact inScope_declared isType _
  | .alias synonym =>
    obtain ⟨isType, -⟩ := sound
    refine ⟨spells_alias synonym, ?_⟩
    rw [← forall_written_map]
    exact inScope_declared isType _
  | .constant _ | .imports _ | .exports _ | .comment _ | .multilineComment _ => trivial

/-- **A variable within the type of a field is out of scope**: the tag and the function that makes its values say `a`, and
their heading does not. -/
theorem variable_out_of_scope :
    (parse "type Shelf a =\n    Box \x7b item: Maybe a \x7d\n").body =
      [.union ⟨.named "Shelf" [.variable "a"], [⟨"Box", [⟨"item", .named "Maybe" [.variable "a"]⟩]⟩]⟩] ∧
    tagText .typeScript ⟨"Box", [⟨"item", .named "Maybe" [.variable "a"]⟩]⟩ =
      "type Box = \x7b\n    kind: \"Box\";\n    item: Maybe<a>;\n\x7d;\n\n" ++
        "function Box(args: \x7b item: Maybe<a> \x7d): Box \x7b\n" ++
        "    return \x7b\n        kind: \"Box\",\n        ...args,\n    \x7d;\n\x7d" ∧
    ¬ (statedTag ⟨"Box", [⟨"item", .named "Maybe" [.variable "a"]⟩]⟩).InScope := by
  refine ⟨by with_unfolding_all rfl, by with_unfolding_all rfl, fun inScope => ?_⟩
  exact List.not_mem_nil (inScope "a" List.mem_cons_self)

end DerwLang.Ecma
