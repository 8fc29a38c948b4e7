/-
**Written types are read back.**

The words of a type hold arrows, and brackets around what holds arrows (`Arrowed`). Cutting at the arrows outside of
brackets gives the words of the parts again, and a part in brackets is told to be a function type. Main facts:

* `Written.read_signature`: the words of a signature are read as the parts of its type;
* `Written.read_type`: the words of a type are read as the type.
-/

import DerwLang.Proofs.Reading.Pieces

namespace DerwLang

open Grammar Layout

/-! ## Tokens with arrows -/

/-- Names and arrows with complete round brackets; whether arrows may stand outside of brackets is told by the first
argument. -/
inductive Arrowed : Bool → List Token → Prop
  | none {arrows : Bool} : Arrowed arrows []
  | name {arrows : Bool} {token : Token} (isName : token.kind = .identifier) : Arrowed arrows [token]
  | arrow {token : Token} (arrow : token.kind = .arrow) : Arrowed true [token]
  | append {arrows : Bool} {first second : List Token} (one : Arrowed arrows first) (two : Arrowed arrows second) :
      Arrowed arrows (first ++ second)
  | round {arrows : Bool} {opening closing : Token} {inside : List Token} (opens : opening.kind = .openBracket)
      (closes : closing.kind = .closeBracket) (inner : Arrowed true inside) :
      Arrowed arrows (opening :: (inside ++ [closing]))

namespace Arrowed

variable {arrows : Bool} {tokens : List Token}

theorem weaken (arrowed : Arrowed arrows tokens) : Arrowed true tokens := by
  induction arrowed with
  | none => exact .none
  | name isName => exact .name isName
  | arrow arrow => exact .arrow arrow
  | append _ _ one two => exact .append one two
  | round opens closes inner _ => exact .round opens closes inner

/-- Complete brackets leave it open whether what follows is complete. -/
theorem balancedFrom (arrowed : Arrowed arrows tokens) (depth : Nat) (rest : List Token) :
    TypeSegment.balancedFrom depth (tokens ++ rest) = TypeSegment.balancedFrom depth rest := by
  induction arrowed generalizing depth rest with
  | none => rfl
  | name isName => simp [TypeSegment.balancedFrom, isName]
  | arrow arrow => simp [TypeSegment.balancedFrom, arrow]
  | append _ _ one two => rw [List.append_assoc, one, two]
  | round opens closes _ inner =>
    simp [TypeSegment.balancedFrom, opens, inner, closes]

/-- The parts with one more token in the first of them. -/
def push (token : Token) : List (List Token) → List (List Token)
  | [] => [[token]]
  | part :: more => (token :: part) :: more

theorem splitFrom_other {token : Token} {depth inner : Nat} (stays : token.kind = .arrow → depth ≠ 0)
    (goes : (match token.kind with
      | .openBracket => depth + 1
      | .closeBracket => depth - 1
      | _ => depth) = inner) (rest : List Token) :
    TypeSegment.splitFrom depth (token :: rest) = push token (TypeSegment.splitFrom inner rest) := by
  have passed : (token.kind == .arrow && depth == 0) = false := by
    cases depth with
    | zero => simpa using stays
    | succ depth => simp
  subst goes
  rw [TypeSegment.splitFrom, passed]
  rfl

/-- Cutting at arrows takes tokens without an arrow outside of brackets into the first part. -/
theorem splitFrom (arrowed : Arrowed arrows tokens) (depth : Nat) (within : arrows = true → depth ≠ 0)
    (rest : List Token) :
    TypeSegment.splitFrom depth (tokens ++ rest) = tokens.foldr push (TypeSegment.splitFrom depth rest) := by
  induction arrowed generalizing depth rest with
  | none => rfl
  | name isName => exact splitFrom_other (by simp [isName]) (by rw [isName]) rest
  | arrow arrow => exact splitFrom_other (fun _ => within rfl) (by rw [arrow]) rest
  | append _ _ one two => rw [List.append_assoc, one depth within, two depth within, List.foldr_append]
  | @round _ opening closing inside opens closes _ inner =>
    have first := @splitFrom_other opening depth (depth + 1) (by simp [opens]) (by rw [opens])
      (inside ++ ([closing] ++ rest))
    have last := @splitFrom_other closing (depth + 1) depth (by simp [closes]) (by rw [closes]; rfl) rest
    rw [List.cons_append, List.append_assoc, first, inner (depth + 1) (fun _ => Nat.succ_ne_zero depth),
      List.singleton_append, last, List.foldr_cons, List.foldr_append]
    rfl

theorem beforeLastClose_cons {token next : Token} (rest : List Token) (depth : Nat) :
    TypeSegment.beforeLastClose depth (token :: next :: rest) =
      match token.kind, depth with
      | .closeBracket, 0 => Option.none
      | .closeBracket, depth + 1 => (TypeSegment.beforeLastClose depth (next :: rest)).map (token :: ·)
      | .openBracket, depth => (TypeSegment.beforeLastClose (depth + 1) (next :: rest)).map (token :: ·)
      | _, depth => (TypeSegment.beforeLastClose depth (next :: rest)).map (token :: ·) := by
  refine (TypeSegment.beforeLastClose.eq_def _ _).trans ?_
  cases depth <;> rfl

/-- Complete brackets do not close the one that is open before them. -/
theorem beforeLastClose (arrowed : Arrowed arrows tokens) (depth : Nat) (next : Token) (rest : List Token) :
    TypeSegment.beforeLastClose depth (tokens ++ next :: rest) =
      (TypeSegment.beforeLastClose depth (next :: rest)).map (tokens ++ ·) := by
  induction arrowed generalizing depth next rest with
  | none => simp
  | name isName => rw [List.singleton_append, beforeLastClose_cons, isName]; rfl
  | arrow arrow => rw [List.singleton_append, beforeLastClose_cons, arrow]; rfl
  | @append _ first second _ _ one two =>
    rw [List.append_assoc]
    cases second with
    | nil => simpa using one depth next rest
    | cons token more =>
      have later := two depth next rest
      rw [List.cons_append] at later ⊢
      rw [one, later, Option.map_map]
      congr 1
      funext inner
      simp
  | @round _ opening closing inside opens closes _ inner =>
    have first : TypeSegment.beforeLastClose depth (opening :: (inside ++ closing :: next :: rest)) =
        (TypeSegment.beforeLastClose (depth + 1) (inside ++ closing :: next :: rest)).map (opening :: ·) := by
      cases whole : inside ++ closing :: next :: rest with
      | nil => simp at whole
      | cons token more => rw [beforeLastClose_cons, opens]
    rw [List.cons_append, List.append_assoc, List.singleton_append, first, inner, beforeLastClose_cons, closes,
      Option.map_map, Option.map_map]
    congr 1
    funext rest
    simp

/-- The sign of definitions does not occur. -/
theorem no_assign (arrowed : Arrowed arrows tokens) : ∀ token ∈ tokens, token.kind ≠ .assign := by
  induction arrowed with
  | none => simp
  | name isName => simp [isName]
  | arrow arrow => simp [arrow]
  | append _ _ one two => exact List.forall_mem_append.mpr ⟨one, two⟩
  | round opens closes _ inner =>
    rw [List.forall_mem_cons, List.forall_mem_append, List.forall_mem_singleton, opens, closes]
    exact ⟨by decide, inner, by decide⟩

/-- What stands between brackets is found. -/
theorem withoutBrackets {opening closing : Token} (opens : opening.kind = .openBracket)
    (closes : closing.kind = .closeBracket) (arrowed : Arrowed arrows tokens) :
    TypeSegment.withoutBrackets (opening :: (tokens ++ [closing])) = some tokens := by
  rw [TypeSegment.withoutBrackets, if_pos (by simp [opens]), arrowed.beforeLastClose, TypeSegment.beforeLastClose,
    if_pos (by simp [closes])]
  simp

end Arrowed

/-! ## Types -/

namespace Written

open Doc

/-! ### Types are on one line -/

mutual

/-- A type is on one line. -/
theorem flat_type : ∀ t : Ty, Sound.Annotation t → (type t).Flat
  | .variable _, sound => flat_words sound.1
  | .named name arguments, sound => by
    refine flat_joined flat_beside ?_
    rw [List.forall_mem_cons]
    exact ⟨flat_words sound.1, flat_typeArguments arguments sound.2.2⟩
  | .function parts, sound =>
    flat_joined (fun one two => flat_beside one (flat_beside (flat_single (by decide) _) two))
      (flat_typeParts parts sound.2)

theorem flat_typeArguments : ∀ arguments : List Ty, Sound.Annotations arguments →
    ∀ doc ∈ typeArguments arguments, doc.Flat
  | [], _ => by simp [typeArguments]
  | argument :: rest, sound => by
    rw [typeArguments, List.forall_mem_cons]
    refine ⟨?_, flat_typeArguments rest sound.2⟩
    split
    · exact flat_round (flat_type argument sound.1)
    · exact flat_type argument sound.1

theorem flat_typeParts : ∀ parts : List Ty, Sound.Annotations parts → ∀ doc ∈ typeParts parts, doc.Flat
  | [], _ => by simp [typeParts]
  | part :: rest, sound => by
    rw [typeParts, List.forall_mem_cons]
    refine ⟨?_, flat_typeParts rest sound.2⟩
    split
    · exact flat_round (flat_type part sound.1)
    · exact flat_type part sound.1

end

/-! ### Arrows -/

/-- The parts of a type at its arrows. -/
def typeSides : Ty → List Ty
  | .function parts => parts
  | other => [other]

theorem type_eq_joined (t : Ty) : type t = joined arrows (typeParts (typeSides t)) := by
  cases t <;> simp [typeSides, typeParts, type, joined, Ty.isFunction]

theorem typeOfParts_typeSides {t : Ty} (sound : Sound.Annotation t) : typeOfParts (typeSides t) = t := by
  cases t with
  | function parts =>
    have many : 2 ≤ parts.length := sound.1
    match parts with
    | first :: second :: rest => rfl
    | [] | [_] => simp at many
  | _ => rfl

theorem arrowed_round {arrows inner : Bool} {inside : Doc} (arrowed : ∀ position, Arrowed inner (inside.tokens position))
    (position : Position) : Arrowed arrows ((Doc.round inside).tokens position) := by
  simpa [Doc.round, single, tokens] using Arrowed.round rfl rfl (arrowed _).weaken

theorem tokens_words {text : String} {kind : Token.Kind} (isWord : IsWord kind text.toList) (position : Position) :
    (words text).tokens position = [⟨kind, text, position.line, position.column⟩] := by
  rw [words_of_isWord isWord, single, tokens, String.ofList_toList]
  rfl

theorem arrowed_name {arrows : Bool} {text : String} (name : Sound.Name text) (position : Position) :
    Arrowed arrows ((words text).tokens position) := by
  rw [tokens_words name]
  exact .name rfl

theorem arrowed_arrows {docs : List Doc} (arrowed : ∀ doc ∈ docs, ∀ position, Arrowed true (doc.tokens position))
    (position : Position) : Arrowed true ((joined arrows docs).tokens position) := by
  induction docs generalizing position with
  | nil => exact .none
  | cons doc rest step =>
    rw [List.forall_mem_cons] at arrowed
    cases rest with
    | nil => exact arrowed.1 position
    | cons next more =>
      have later := step arrowed.2
      rw [joined]
      simp only [arrows, beside, single, tokens_append, tokens, word_append, done_append]
      exact .append (arrowed.1 position) (.append (.arrow rfl) (later _))

theorem arrowed_spaced {arrows : Bool} {docs : List Doc}
    (arrowed : ∀ doc ∈ docs, ∀ position, Arrowed arrows (doc.tokens position)) (position : Position) :
    Arrowed arrows ((spaced docs).tokens position) := by
  induction docs generalizing position with
  | nil => exact .none
  | cons doc rest step =>
    rw [List.forall_mem_cons] at arrowed
    rw [spaced, tokens, tokens_append]
    exact .append (arrowed.1 _) (step arrowed.2 _)

mutual

/-- Arrows stand outside of brackets in function types only. -/
theorem arrowed_type : ∀ t : Ty, Sound.Annotation t → ∀ position, Arrowed t.isFunction ((type t).tokens position)
  | .variable _, sound => arrowed_name sound.1
  | .named name arguments, sound => by
    intro position
    rw [type, joined_beside, tokens_append]
    exact .append (arrowed_name sound.1 position) (arrowed_spaced (arrowed_typeArguments arguments sound.2.2) _)
  | .function parts, sound => arrowed_arrows (arrowed_typeParts parts sound.2)

theorem arrowed_typeArguments : ∀ arguments : List Ty, Sound.Annotations arguments →
    ∀ doc ∈ typeArguments arguments, ∀ position, Arrowed false (doc.tokens position)
  | [], _ => by simp [typeArguments]
  | argument :: rest, sound => by
    rw [typeArguments, List.forall_mem_cons]
    refine ⟨?_, arrowed_typeArguments rest sound.2⟩
    have own := arrowed_type argument sound.1
    split
    · exact arrowed_round own
    · rename_i simple
      have plain : argument.isFunction = false := by
        cases argument <;> simp [Ty.isCompound, Ty.isFunction] at simple ⊢
      rwa [plain] at own

theorem arrowed_typeParts : ∀ parts : List Ty, Sound.Annotations parts →
    ∀ doc ∈ typeParts parts, ∀ position, Arrowed true (doc.tokens position)
  | [], _ => by simp [typeParts]
  | part :: rest, sound => by
    rw [typeParts, List.forall_mem_cons]
    refine ⟨?_, arrowed_typeParts rest sound.2⟩
    have own := arrowed_type part sound.1
    split
    · exact arrowed_round own
    · exact fun position => (own position).weaken

end

/-! ## Segments -/

/-- The document of a part of a function type. -/
def typePart (part : Ty) : Doc :=
  if part.isFunction then Doc.round (type part) else type part

theorem arrowed_typePart {part : Ty} (sound : Sound.Annotation part) (position : Position) :
    Arrowed false ((typePart part).tokens position) := by
  have own := arrowed_type part sound
  rw [typePart]
  split
  · exact arrowed_round own position
  · rename_i simple
    rw [Bool.not_eq_true] at simple
    rw [simple] at own
    exact own position

theorem phrase_typePart {commas : Bool} {part : Ty} (sound : Sound.Annotation part) : Phrase commas (typePart part) := by
  rw [typePart]
  split
  · exact .round (phrase_type part sound)
  · exact phrase_type part sound

theorem foldr_push (tokens : List Token) (more : List (List Token)) :
    tokens.foldr Arrowed.push ([] :: more) = tokens :: more := by
  induction tokens with
  | nil => rfl
  | cons token rest step => rw [List.foldr_cons, step]; rfl

/-- **Cutting at the arrows gives the parts.** -/
theorem split_arrows {docs : List Doc} (some_ : docs ≠ [])
    (arrowed : ∀ doc ∈ docs, ∀ position, Arrowed false (doc.tokens position)) (position : Position) :
    List.Forall₂ (fun tokens doc => ∃ place, tokens = doc.tokens place)
      (TypeSegment.split ((joined arrows docs).tokens position)) docs := by
  induction docs generalizing position with
  | nil => exact absurd rfl some_
  | cons doc rest step =>
    rw [List.forall_mem_cons] at arrowed
    have own := (arrowed.1 position).splitFrom 0 (by simp)
    cases rest with
    | nil =>
      have whole := own []
      rw [List.append_nil, TypeSegment.splitFrom, foldr_push] at whole
      rw [joined, TypeSegment.split, whole]
      exact .cons ⟨position, rfl⟩ .nil
    | cons next more =>
      let place := (position.after doc.chars).step ' '
      let after := ((place.step '-').step '>').step ' '
      have tokens : (joined arrows (doc :: next :: more)).tokens position =
          doc.tokens position ++ ⟨.arrow, "->", place.line, place.column⟩ :: (joined arrows (next :: more)).tokens after := by
        simp [joined, arrows, beside, single, Doc.tokens, after_cons, place, after]
      rw [tokens, TypeSegment.split, own, TypeSegment.splitFrom, if_pos (by simp), foldr_push]
      exact .cons ⟨position, rfl⟩ (step (List.cons_ne_nil next more) arrowed.2 after)

/-- A type that is no function type starts with its name. -/
theorem tokens_type {t : Ty} (sound : Sound.Annotation t) (plain : t.isFunction = false) (position : Position) :
    ∃ name arguments, (t = .variable name ∧ arguments = [] ∨ t = .named name arguments) ∧ Sound.Name name ∧
      (type t).tokens position = ⟨.identifier, name, position.line, position.column⟩ ::
        (spaced (typeArguments arguments)).tokens (position.after name.toList) := by
  cases t with
  | «variable» name =>
    refine ⟨name, [], .inl ⟨rfl, rfl⟩, sound.1, ?_⟩
    rw [type, tokens_words sound.1]
    rfl
  | named name arguments =>
    refine ⟨name, arguments, .inr rfl, sound.1, ?_⟩
    rw [type, joined_beside, tokens_append, tokens_words sound.1, chars_words]
    rfl
  | function parts => simp [Ty.isFunction] at plain

/-- A type that needs no brackets as an argument is a name on its own. -/
theorem simple_argument {t : Ty} (sound : Sound.Annotation t) (simple : t.isCompound = false) :
    ∃ name, type t = words name ∧ Sound.Name name ∧ Ty.ofName name = t := by
  cases t with
  | «variable» name => exact ⟨name, rfl, sound.1, sound.2⟩
  | named name arguments =>
    have none_ : arguments = [] := by simpa [Ty.isCompound] using simple
    subst none_
    exact ⟨name, rfl, sound.1, sound.2.1 rfl⟩
  | function parts => simp [Ty.isCompound] at simple

/-- **The arguments of a named type are read back.** -/
theorem read_typeArguments {nested : List Token → Parsed (List Ty)} (head : String) {arguments : List Ty}
    (sound : ∀ argument ∈ arguments, Sound.Annotation argument)
    (reads : ∀ argument ∈ arguments, argument.isCompound = true → ∀ position,
      nested ((type argument).tokens position) = .ok (typeSides argument)) (position : Position) :
    Grammar.typeArguments nested head ((spaced (typeArguments arguments)).tokens position) = .ok arguments := by
  induction arguments generalizing position with
  | nil => rw [typeArguments, spaced, tokens, Grammar.typeArguments]
  | cons argument rest step =>
    rw [List.forall_mem_cons] at sound reads
    rw [typeArguments, spaced, tokens, tokens_append]
    cases compound : argument.isCompound with
    | false =>
      obtain ⟨name, same, isName, read⟩ := simple_argument sound.1 compound
      rw [if_neg (by simp), same, tokens_words isName, List.singleton_append, Grammar.typeArguments,
        step sound.2 reads.2]
      simp [read, bind, Except.bind, pure, Except.pure]
    | true =>
      have phrase : Phrase true (type argument) := phrase_type argument sound.1
      rw [if_pos rfl, Doc.round, tokens, tokens_append, single, tokens, tokens, List.cons_append, List.append_assoc,
        List.singleton_append, Grammar.typeArguments]
      simp only
      split
      · rename_i none_
        rw [(phrase.balanced _).splitClose_closing .round rfl] at none_
        simp at none_
      · rename_i cut found
        rw [(phrase.balanced _).splitClose_closing .round rfl, Option.some.injEq] at found
        subst found
        simp only
        rw [reads.1 compound, step sound.2 reads.2]
        simp [typeOfParts_typeSides sound.1, bind, Except.bind, pure, Except.pure]

/-! ## Signatures -/

theorem typeParts_map (parts : List Ty) : typeParts parts = parts.map typePart :=
  typeParts_eq parts

/-- The words of a function type have several parts. -/
theorem length_split {parts : List Ty} (sound : Sound.Annotation (.function parts)) (position : Position) :
    1 < (TypeSegment.split ((type (.function parts)).tokens position)).length := by
  have many : 2 ≤ parts.length := sound.1
  have each := Sound.annotations_iff.mp sound.2
  have cut := @split_arrows (typeParts parts) (by rw [typeParts_map, Ne, List.map_eq_nil_iff]; rintro rfl; simp at many)
    (by
      rw [typeParts_map, List.forall_mem_map]
      exact fun part member => arrowed_typePart (each part member)) position
  have same := cut.length_eq
  rw [typeParts_map, List.length_map] at same
  rw [type, typeParts_map]
  omega

theorem count_round (inside : Doc) : (Doc.round inside).count = inside.count + 2 := by
  simp [Doc.round, single, count]

/-- **A part of a signature is read back**; in brackets it is told to be a function type. -/
theorem read_typePart {nested : List Token → Parsed (List Ty)} {part : Ty} (sound : Sound.Annotation part)
    (reads : ∀ t, Sound.Annotation t → (type t).count < (typePart part).count → ∀ position,
      nested ((type t).tokens position) = .ok (typeSides t)) (line : Nat) (position : Position) :
    segmentType nested line (TypeSegment.classify ((typePart part).tokens position)) = .ok part := by
  cases plain : part.isFunction with
  | false =>
    rw [typePart, plain, if_neg (by simp)] at reads ⊢
    obtain ⟨name, arguments, same, isName, tokens⟩ := tokens_type sound plain position
    have bare : TypeSegment.withoutBrackets ((type part).tokens position) = none := by
      rw [tokens, TypeSegment.withoutBrackets, if_neg (by simp)]
    have segment : TypeSegment.classify ((type part).tokens position) = .plain ((type part).tokens position) := by
      rw [TypeSegment.classify]
      split
      · rfl
      · rename_i inner found
        simp [bare] at found
    rw [segment, segmentType, tokens, namedType, if_pos (by simp)]
    rcases same with ⟨rfl, rfl⟩ | rfl
    · rw [read_typeArguments name (by simp) (by simp)]
      simp [bind, Except.bind, pure, Except.pure, sound.2]
    · have each := Sound.annotations_iff.mp sound.2.2
      have read : Grammar.typeArguments nested name ((spaced (typeArguments arguments)).tokens (position.after name.toList)) =
          .ok arguments := by
        refine read_typeArguments name each (fun argument member compound => ?_) _
        refine reads argument (each argument member) ?_
        have inner := @le_joined count beside (by simp [beside, count]) (words name :: typeArguments arguments)
          (Doc.round (type argument)) (by
            rw [typeArguments_eq]
            exact List.mem_cons_of_mem _ (List.mem_map.mpr ⟨argument, member, by rw [if_pos compound]⟩))
        rw [count_round] at inner
        rw [type]
        omega
      rw [read]
      cases arguments with
      | nil => simp [bind, Except.bind, pure, Except.pure, sound.2.1]
      | cons first rest => rfl
  | true =>
    cases part with
    | function parts =>
      rw [typePart, plain, if_pos rfl] at reads ⊢
      let inner := (type (.function parts)).tokens (position.after ['('])
      have tokens : (Doc.round (type (.function parts))).tokens position =
          ⟨.openBracket, "(", position.line, position.column⟩ :: (inner ++
            [⟨.closeBracket, ")", ((position.after ['(']).after (type (.function parts)).chars).line,
              ((position.after ['(']).after (type (.function parts)).chars).column⟩]) := by
        simp [Doc.round, single, Doc.tokens, inner]
      have within : TypeSegment.withoutBrackets ((Doc.round (type (.function parts))).tokens position) = some inner := by
        rw [tokens]
        exact Arrowed.withoutBrackets rfl rfl (arrowed_type _ sound _)
      have segment : TypeSegment.classify ((Doc.round (type (.function parts))).tokens position) = .function inner := by
        rw [TypeSegment.classify]
        split
        · rename_i none_
          simp [within] at none_
        · rename_i found
          rw [within, Option.some.injEq] at found
          subst found
          rw [if_pos (length_split sound _)]
      rw [segment, segmentType, reads _ sound (by rw [count_round]; omega)]
      rfl
    | _ => simp [Ty.isFunction] at plain

theorem sound_typeSides {t : Ty} (sound : Sound.Annotation t) : typeSides t ≠ [] ∧ ∀ part ∈ typeSides t, Sound.Annotation part := by
  cases t with
  | function parts =>
    refine ⟨?_, Sound.annotations_iff.mp sound.2⟩
    have many : 2 ≤ parts.length := sound.1
    rintro rfl
    simp at many
  | _ => exact ⟨List.cons_ne_nil _ _, by simpa [typeSides] using sound⟩

/-- The segments of the words of a type are those of its parts. -/
theorem ofTokens_type {t : Ty} (sound : Sound.Annotation t) (position : Position) :
    TypeSegment.ofTokens ((type t).tokens position) =
      .ok ((TypeSegment.split ((type t).tokens position)).map TypeSegment.classify) := by
  have phrase : Phrase true (type t) := phrase_type t sound
  obtain ⟨first, rest, tokens, -, -⟩ := tokens_of_starts phrase.solid.1 0 position
  rw [shift_zero] at tokens
  have closed : TypeSegment.balanced ((type t).tokens position) = true := by
    have whole := (arrowed_type t sound position).balancedFrom 0 []
    rw [List.append_nil] at whole
    rw [TypeSegment.balanced, whole]
    rfl
  obtain ⟨some_, each⟩ := sound_typeSides sound
  have filled : (TypeSegment.split ((type t).tokens position)).any List.isEmpty = false := by
    have parts := @split_arrows (typeParts (typeSides t)) (by rw [typeParts_map]; simpa using some_)
      (by
        rw [typeParts_map, List.forall_mem_map]
        exact fun part member => arrowed_typePart (each part member)) position
    rw [← type_eq_joined, typeParts_map] at parts
    rw [List.any_eq_false]
    refine forall_of_forall₂ parts ?_
    rw [List.forall_mem_map]
    rintro part member _ ⟨place, rfl⟩
    have phrase : Phrase true (typePart part) := phrase_typePart (each part member)
    obtain ⟨first, rest, tokens, -, -⟩ := tokens_of_starts phrase.solid.1 0 place
    rw [shift_zero] at tokens
    simp [tokens]
  rw [TypeSegment.ofTokens]
  simp only [phrase.balanced position |>.significant]
  rw [if_neg (by simp [tokens]), if_neg (by simp [closed]), if_neg (by simp [filled])]

/-- **The words of a type are read as its parts**, by a reader that goes deep enough. -/
theorem read_signatureAt {depth : Nat} {t : Ty} (sound : Sound.Annotation t) (deep : (type t).count ≤ depth)
    (position : Position) : signatureAt depth ((type t).tokens position) = .ok (typeSides t) := by
  induction depth generalizing t position with
  | zero =>
    have phrase : Phrase true (type t) := phrase_type t sound
    obtain ⟨first, rest, tokens, -, -⟩ := tokens_of_starts phrase.solid.1 0 position
    have length := length_tokens position (type t)
    rw [shift_zero] at tokens
    rw [tokens, List.length_cons] at length
    omega
  | succ depth step =>
    obtain ⟨some_, each⟩ := sound_typeSides sound
    have parts := @split_arrows (typeParts (typeSides t)) (by rw [typeParts_map]; simpa using some_)
      (by
        rw [typeParts_map, List.forall_mem_map]
        exact fun part member => arrowed_typePart (each part member)) position
    rw [← type_eq_joined, typeParts_map, List.forall₂_map_right_iff] at parts
    rw [signatureAt, signatureStep, ofTokens_type sound]
    refine mapM_ok (List.forall₂_map_left_iff.mpr (forall₂_imp_mem parts ?_))
    rintro part member _ ⟨place, rfl⟩
    refine read_typePart (each part member) (fun inner soundInner smaller place => ?_) _ place
    have within := @le_joined count arrows (by simp [arrows, beside, count]) (typeParts (typeSides t)) (typePart part)
      (by rw [typeParts_map]; exact List.mem_map_of_mem member)
    rw [← type_eq_joined] at within
    exact step soundInner (by omega) place

/-- The words of a type are read as its parts. -/
theorem read_signature {t : Ty} (sound : Sound.Annotation t) (position : Position) :
    signature ((type t).tokens position) = .ok (typeSides t) := by
  rw [signature, length_tokens]
  exact read_signatureAt sound (Nat.le_refl _) position

/-- **The words of a type are read as the type.** -/
theorem read_type {t : Ty} (sound : Sound.Annotation t) (position : Position) :
    typeOf ((type t).tokens position) = .ok t := by
  rw [typeOf, read_signature sound]
  exact congrArg Except.ok (typeOfParts_typeSides sound)

end Written

end DerwLang
