/-
**The types and patterns that are read are sound.**

A signature is read as the types between its arrows, and a type in brackets that is told to be a function type has an arrow.
Main facts:

* `sound_signature`, `sound_typeOf`: the types that are read can be read;
* `sound_pattern`: so can the patterns.
-/

import DerwLang.Proofs.Accepted.Part
import DerwLang.Proofs.ListPattern.Accepted

namespace DerwLang

open Grammar

/-! ## Segments -/

theorem Grammatical.typeParts {tokens : List Token} (grammatical : Grammatical tokens) (depth : Nat) :
    ∀ part ∈ TypeSegment.splitFrom depth tokens, Grammatical part := by
  fun_induction TypeSegment.splitFrom depth tokens with
  | case1 => simp [Grammatical]
  | case2 depth token rest arrow step =>
    rw [List.forall_mem_cons]
    exact ⟨by simp [Grammatical], step (grammatical_cons.mp grammatical).2⟩
  | case3 depth token rest other inner none_ step =>
    simpa [Grammatical] using (grammatical_cons.mp grammatical).1
  | case4 depth token rest other inner part more found step =>
    obtain ⟨first, later⟩ := grammatical_cons.mp grammatical
    have parts := step later
    rw [found, List.forall_mem_cons] at parts
    rw [List.forall_mem_cons]
    exact ⟨grammatical_cons.mpr ⟨first, parts.1⟩, parts.2⟩

theorem Grammatical.beforeLastClose {depth : Nat} {tokens inner : List Token} (grammatical : Grammatical tokens)
    (found : TypeSegment.beforeLastClose depth tokens = some inner) : Grammatical inner := by
  fun_induction TypeSegment.beforeLastClose depth tokens generalizing inner with
  | case1 => simp at found
  | case2 token closes =>
    obtain rfl := Option.some.inj found
    simp [Grammatical]
  | case3 => simp at found
  | case4 => simp at found
  | case5 token rest depth other closes step =>
    obtain ⟨more, smaller, rfl⟩ := Option.map_eq_some_iff.mp found
    obtain ⟨first, later⟩ := grammatical_cons.mp grammatical
    exact grammatical_cons.mpr ⟨first, step later smaller⟩
  | case6 depth token rest other opens step =>
    obtain ⟨more, smaller, rfl⟩ := Option.map_eq_some_iff.mp found
    obtain ⟨first, later⟩ := grammatical_cons.mp grammatical
    exact grammatical_cons.mpr ⟨first, step later smaller⟩
  | case7 depth token rest other noClose noClose' noOpen step =>
    obtain ⟨more, smaller, rfl⟩ := Option.map_eq_some_iff.mp found
    obtain ⟨first, later⟩ := grammatical_cons.mp grammatical
    exact grammatical_cons.mpr ⟨first, step later smaller⟩

theorem Grammatical.withoutBrackets {tokens inner : List Token} (grammatical : Grammatical tokens)
    (found : TypeSegment.withoutBrackets tokens = some inner) : Grammatical inner := by
  cases tokens with
  | nil => simp [TypeSegment.withoutBrackets] at found
  | cons token rest =>
    rw [TypeSegment.withoutBrackets] at found
    split at found
    · exact (grammatical_cons.mp grammatical).2.beforeLastClose found
    · simp at found

theorem typeParts_ne_nil (depth : Nat) (tokens : List Token) : TypeSegment.splitFrom depth tokens ≠ [] := by
  fun_cases TypeSegment.splitFrom depth tokens <;> simp

/-- What a segment holds is grammatical, and a function type has several parts. -/
theorem Grammatical.classify {tokens : List Token} (grammatical : Grammatical tokens) :
    (∃ inner, TypeSegment.classify tokens = .plain inner ∧ Grammatical inner) ∨
      ∃ inner, TypeSegment.classify tokens = .function inner ∧ Grammatical inner ∧ 2 ≤ (TypeSegment.split inner).length := by
  fun_induction TypeSegment.classify tokens with
  | case1 tokens none_ => exact .inl ⟨tokens, rfl, grammatical⟩
  | case2 tokens inner found several => exact .inr ⟨inner, rfl, grammatical.withoutBrackets found, several⟩
  | case3 tokens inner found single step => exact step (grammatical.withoutBrackets found)

/-! ## Types -/

theorem annotation_ofName {name : String} (isName : Sound.Name name) : Sound.Annotation (Ty.ofName name) := by
  cases plain : Ty.isBuiltinName name || Text.isCapitalised name with
  | true =>
    have same : Ty.ofName name = .named name [] := by rw [Ty.ofName, if_pos plain]; rfl
    rw [same]
    exact ⟨isName, fun _ => same, trivial⟩
  | false =>
    have same : Ty.ofName name = .variable name := by rw [Ty.ofName, if_neg (by simp [plain])]
    rw [same]
    exact ⟨isName, same⟩

theorem annotation_typeOfParts {types : List Ty} (some_ : types ≠ []) (sound : ∀ type ∈ types, Sound.Annotation type) :
    Sound.Annotation (typeOfParts types) := by
  match types, some_ with
  | [type], _ => exact sound type List.mem_cons_self
  | _ :: _ :: _, _ => exact ⟨by simp, Sound.annotations_iff.mpr sound⟩

/-- What is read of a signature: sound types, as many as it has parts. -/
def ReadsTypes (read : List Token → Parsed (List Ty)) : Prop :=
  ∀ {tokens types}, Grammatical tokens → read tokens = .ok types →
    types.length = (TypeSegment.split tokens).length ∧ ∀ type ∈ types, Sound.Annotation type

theorem sound_typeArguments {nested : List Token → Parsed (List Ty)} (reads : ReadsTypes nested) {tokens : List Token}
    {types : List Ty} (grammatical : Grammatical tokens) (rule : TypeArgumentsRule nested tokens types) :
    ∀ type ∈ types, Sound.Annotation type := by
  induction rule with
  | nil => simp
  | name isName _ step =>
    obtain ⟨first, later⟩ := grammatical_cons.mp grammatical
    exact List.forall_mem_cons.mpr ⟨annotation_ofName (first.1.name isName), step later⟩
  | @brackets _ _ cut own _ _ cuts inner _ step =>
    obtain ⟨inside, -, after⟩ := (grammatical_cons.mp grammatical).2.cut cuts.whole
    obtain ⟨length, sound⟩ := reads inside inner
    have some_ : own ≠ [] := by
      rw [← List.length_pos_iff, length, List.length_pos_iff]
      exact typeParts_ne_nil 0 cut.inside
    exact List.forall_mem_cons.mpr ⟨annotation_typeOfParts some_ sound, step after⟩

theorem sound_namedType {nested : List Token → Parsed (List Ty)} (reads : ReadsTypes nested) {tokens : List Token} {type : Ty}
    (grammatical : Grammatical tokens) (rule : NamedTypeRule nested tokens type) : Sound.Annotation type := by
  cases rule with
  | plain isName _ => exact annotation_ofName ((grammatical_cons.mp grammatical).1.1.name isName)
  | applied isName arguments =>
    obtain ⟨first, later⟩ := grammatical_cons.mp grammatical
    exact ⟨first.1.name isName, by simp, Sound.annotations_iff.mpr (sound_typeArguments reads later arguments)⟩

theorem sound_segmentType {nested : List Token → Parsed (List Ty)} (reads : ReadsTypes nested) {line : Nat}
    {tokens : List Token} {type : Ty} (grammatical : Grammatical tokens)
    (read : segmentType nested line (TypeSegment.classify tokens) = .ok type) : Sound.Annotation type := by
  rcases grammatical.classify with ⟨inner, same, inside⟩ | ⟨inner, same, inside, several⟩
  · rw [same] at read
    exact sound_namedType reads inside (namedType_rule read)
  · rw [same] at read
    obtain ⟨types, found, rfl⟩ := ok_of_map read
    obtain ⟨length, sound⟩ := reads inside found
    exact ⟨length ▸ several, Sound.annotations_iff.mpr sound⟩

/-- **What is read of a signature is sound**, at any depth. -/
theorem readsTypes_signatureAt (depth : Nat) : ReadsTypes (signatureAt depth) := by
  induction depth with
  | zero => exact fun _ read => by simp [signatureAt] at read
  | succ depth step =>
    intro tokens types grammatical read
    have each := segments_of_signatureStep read
    rw [grammatical.significant] at each
    refine ⟨by rw [length_of_mapM each, List.length_map], forall_of_mapM each fun segment member type own => ?_⟩
    obtain ⟨part, among, rfl⟩ := List.mem_map.mp member
    exact sound_segmentType step (grammatical.typeParts 0 part among) own

/-- **The types of a signature are sound**, and there are some. -/
theorem sound_signature {tokens : List Token} {types : List Ty} (grammatical : Grammatical tokens)
    (read : signature tokens = .ok types) : types ≠ [] ∧ ∀ type ∈ types, Sound.Annotation type := by
  obtain ⟨length, sound⟩ := readsTypes_signatureAt tokens.length grammatical read
  refine ⟨?_, sound⟩
  rw [← List.length_pos_iff, length, List.length_pos_iff]
  exact typeParts_ne_nil 0 tokens

/-- **A type that is read is sound.** -/
theorem sound_typeOf {tokens : List Token} {type : Ty} (grammatical : Grammatical tokens) (read : typeOf tokens = .ok type) :
    Sound.Annotation type := by
  obtain ⟨types, found, rfl⟩ := ok_of_map read
  obtain ⟨some_, sound⟩ := sound_signature grammatical found
  exact annotation_typeOfParts some_ sound

/-! ## Patterns -/

theorem sound_patternFields {tokens : List Token} {names : List String} {ending : Window} (grammatical : Grammatical tokens)
    (rule : PatternFieldsRule tokens names ending) : ∀ name ∈ names, Sound.Name name := by
  induction rule with
  | none => simp
  | last isName => simpa using (grammatical_cons.mp grammatical).1.1.name isName
  | more isName _ _ step =>
    obtain ⟨first, later⟩ := grammatical_cons.mp grammatical
    exact List.forall_mem_cons.mpr ⟨first.1.name isName, step (grammatical_cons.mp later).2⟩

theorem sound_tagPattern {token : Token} (isName : Sound.Name token.body) (capital : Text.isCapitalised token.body = true)
    {window ending : Window} {shape : TagPattern} (grammatical : Grammatical window.tokens)
    (rule : TagPatternRule token.body window shape ending) : Sound.TagPattern shape := by
  cases rule with
  | bare => exact ⟨isName, capital, by simp⟩
  | braced tokens _ fields =>
    rw [tokens] at grammatical
    exact ⟨isName, capital, sound_patternFields (grammatical_cons.mp grammatical).2 fields⟩

theorem sound_singlePattern {window : Window} {shape : Pattern} (grammatical : Grammatical window.tokens)
    (rule : SinglePatternRule window shape) : Sound.Pattern shape := by
  cases rule with
  | string tokens isString =>
    rw [tokens] at grammatical
    exact (grammatical_cons.mp grammatical).1.1.quoted isString
  | formatString tokens isFormatString =>
    rw [tokens] at grammatical
    exact (grammatical_cons.mp grammatical).1.1.backquoted isFormatString
  | emptyList | otherwise => trivial
  | tag tokens isName capital tagged _ =>
    rw [tokens] at grammatical
    obtain ⟨first, later⟩ := grammatical_cons.mp grammatical
    exact sound_tagPattern (first.1.name isName) capital later tagged

theorem sound_listPart {window : Window} {part : ListPart} (grammatical : Grammatical window.tokens)
    (rule : ListPartRule window part) : Sound.ListPart part := by
  cases rule with
  | string tokens isString =>
    rw [tokens] at grammatical
    exact (grammatical_cons.mp grammatical).1.1.quoted isString
  | formatString tokens isFormatString =>
    rw [tokens] at grammatical
    exact (grammatical_cons.mp grammatical).1.1.backquoted isFormatString
  | emptyList => trivial
  | tag tokens isName capital tagged _ =>
    rw [tokens] at grammatical
    obtain ⟨first, later⟩ := grammatical_cons.mp grammatical
    exact sound_tagPattern (first.1.name isName) capital later tagged
  | name tokens isName small dotless =>
    rw [tokens] at grammatical
    exact ⟨(grammatical_cons.mp grammatical).1.1.name isName, small, dotless⟩

theorem sound_listParts {windows : List Window} {parts : List ListPart}
    (grammatical : ∀ window ∈ windows, Grammatical window.tokens) (rule : ListPartsRule windows parts) :
    ∀ part ∈ parts, Sound.ListPart part := by
  induction rule with
  | nil => simp
  | cons first _ _ step =>
    rw [List.forall_mem_cons] at grammatical
    exact List.forall_mem_cons.mpr ⟨sound_listPart grammatical.1 first, step grammatical.2⟩

theorem last_of_closedAtEnd {parts : List ListPart} (closed : Ecma.ClosedAtEnd parts) :
    ∀ before after, parts = before ++ .emptyList :: after → after = [] := by
  intro before
  induction before generalizing parts with
  | nil =>
    rintro after rfl
    exact closed.1 rfl
  | cons part more step =>
    rintro after rfl
    exact step closed.2 after rfl

/-- **A pattern that is read is sound.** -/
theorem sound_pattern {window : Window} {shape : Pattern} (grammatical : Grammatical window.tokens)
    (read : pattern window = .ok shape) : Sound.Pattern shape := by
  cases pattern_rule read with
  | list separated each =>
    exact ⟨each.several (separated_splitFrom _ _ _ _) separated, sound_listParts (grammatical.splitFrom _ 0 window.before) each,
      last_of_closedAtEnd each.shape.2⟩
  | single found => exact sound_singlePattern grammatical found

end DerwLang
