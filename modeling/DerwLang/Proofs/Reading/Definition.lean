/-
**Written definitions are read back.**

A definition is its name, the names of its arguments and its body, and it may have a signature on the line above. That line
is told from the rest by the name that starts the next one. Main facts:

* `read_function`, `read_constant`: definitions are read back, with whatever reads their bodies;
* `declares_definition`: a definition goes on to its end, past the line end after its signature.
-/

import DerwLang.Proofs.Reading.Expression

namespace DerwLang

open Grammar Layout

/-! ## The line of a signature -/

theorem endLine_of_flat {own : List Char} (flat : '\n' ∉ own) (kind : Token.Kind) (line column : Nat) :
    (Token.mk kind (String.ofList own) line column).endLine = line := by
  rw [Token.endLine, String.toList_ofList, List.count_eq_zero_of_not_mem flat]
  rfl

/-- The words of a document on one line are on that line. -/
theorem Doc.Flat.lines {doc : Doc} (flat : doc.Flat) {position : Position} :
    ∀ token ∈ doc.tokens position, token.line = position.line ∧ token.endLine = position.line := by
  have first : ∀ (kind : Token.Kind) {own : List Char}, '\n' ∉ own → ∀ (position : Position) (rest : List Token),
      (∀ token ∈ rest, token.line = (position.after own).line ∧ token.endLine = (position.after own).line) →
      ∀ token ∈ ⟨kind, String.ofList own, position.line, position.column⟩ :: rest,
        token.line = position.line ∧ token.endLine = position.line := by
    intro kind own flat position rest later
    rw [List.forall_mem_cons]
    refine ⟨⟨rfl, endLine_of_flat flat kind _ _⟩, fun token member => ?_⟩
    have lines := later token member
    rw [after_flat flat] at lines
    exact lines
  induction doc generalizing position with
  | done => simp
  | word kind own rest step => exact first kind flat.1 position _ (step flat.2)
  | list inside rest _ step =>
    have own : '\n' ∉ listChars inside := by simp [listChars, flat.1.chars]
    exact first .literal own position _ (step flat.2)
  | space rest step => exact step flat
  | line blank indent rest => exact flat.elim

/-- The definition after a signature is found where its name starts a line. -/
theorem splitDefinition_next {name : String} {line : Nat} {previous next : Token} {tokens : List Token}
    (same : ∀ token ∈ previous :: tokens, token.line = line ∧ token.endLine = line) (isName : next.kind = .identifier)
    (named : next.body = name) (below : line < next.line) (more : List Token) :
    Token.splitDefinition name previous (tokens ++ next :: more) = some ⟨tokens, next, more⟩ := by
  induction tokens generalizing previous with
  | nil =>
    have starts : next.startsLineAfter previous = true := by
      simpa [Token.startsLineAfter, (same previous List.mem_cons_self).2] using below
    rw [List.nil_append, Token.splitDefinition, if_pos (by simp [isName, named, starts])]
  | cons token rest step =>
    rw [List.forall_mem_cons] at same
    have stays : token.startsLineAfter previous = false := by
      simp [Token.startsLineAfter, same.1.2, (same.2 token List.mem_cons_self).1]
    rw [List.cons_append, Token.splitDefinition, if_neg (by simp [stays]), step same.2]
    rfl

namespace Written

open Doc

variable {level : Nat}

/-! ## Words of definitions -/

/-- A definition without its signature. -/
def plainDefinition (name : String) (arguments : List String) (result : Body) : Doc :=
  above ((joined beside ((name :: arguments).map words)).beside assign) (bodyOf result)

theorem block_function (name : String) (returnType : Ty) (parameters : List Parameter) (result : Body) :
    block (.function ⟨name, returnType, parameters, result⟩) =
      signed (!(parameters.map Parameter.type ++ [returnType]).all Ty.isAny) name
        (.function (parameters.map Parameter.type ++ [returnType]))
        (plainDefinition name (argumentNames parameters) result) := rfl

theorem block_constant (name : String) (type : Ty) (result : Body) :
    block (.constant ⟨name, type, result⟩) = signed (!type.isAny) name type (plainDefinition name [] result) := rfl

/-- The words of a definition without its signature. -/
theorem tokens_plainDefinition {name : String} (isName : Sound.Name name) (arguments : List String) (result : Body)
    (level : Nat) (position : Position) :
    ∃ sign place, sign.kind = .assign ∧ Indented (level + 1) place ∧
      ((plainDefinition name arguments result).shift level).tokens position =
        ⟨.identifier, name, position.line, position.column⟩ ::
          (((spaced (arguments.map words)).shift level).tokens (position.after name.toList) ++
            sign :: ((bodyOf result).shift (level + 1)).tokens place) := by
  obtain ⟨place, right, tokens⟩ :=
    tokens_above ((joined beside ((name :: arguments).map words)).beside assign) (bodyOf result) level position
  obtain ⟨sign, isAssign, ahead⟩ := tokens_signed (joined beside ((name :: arguments).map words)) .assign ['='] level position
  refine ⟨sign, place, isAssign, right, ?_⟩
  rw [plainDefinition, tokens, assign, ahead, List.map_cons, joined_beside, tokens_named isName]
  simp

/-- The words of a signature, which are on one line, and of what stands on the next line. -/
theorem tokens_signature {name : String} (isName : Sound.Name name) {t : Ty} (sound : Sound.Annotation t)
    (definition : Doc) (level : Nat) (position : Position) :
    ∃ colon place next, colon.kind = .colon ∧ next.line = position.line + 1 ∧ next.column = 4 * level + 1 ∧
      (∀ token ∈ ⟨.identifier, name, position.line, position.column⟩ :: colon :: (type t).tokens place,
        token.line = position.line ∧ token.endLine = position.line) ∧
      ((signed true name t definition).shift level).tokens position =
        ⟨.identifier, name, position.line, position.column⟩ :: colon ::
          ((type t).tokens place ++ (definition.shift level).tokens next) := by
  have flat : ((label (words name)).beside (type t)).Flat :=
    flat_beside (flat_label (flat_words isName)) (flat_type t sound)
  let after := position.after name.toList
  let place := (after.step ':').step ' '
  let next := (position.after ((label (words name)).beside (type t)).chars).after (lineChars false (0 + 4 * level))
  have header : ((label (words name)).beside (type t)).tokens position =
      ⟨.identifier, name, position.line, position.column⟩ :: placed .colon [':'] after :: (type t).tokens place := by
    rw [beside, label, tokens_append, tokens_append, tokens_words isName]
    simp [single, Doc.tokens, placed, after, place, words_of_isWord isName, after_append, after_cons]
  refine ⟨placed .colon [':'] after, place, next, rfl, ?_, ?_, ?_, ?_⟩
  · simp only [next, after_lineChars, after_flat flat.chars]
    rfl
  · simp only [next, after_lineChars]
    omega
  · rw [← header]
    exact flat.lines
  · rw [signed, if_pos rfl, shift_under, flat.shift, under, tokens_append, header]
    simp [Doc.tokens, next]

/-! ## Definitions -/

section Definitions

variable {read : Window → Parsed Body} {name : String} {result : Body}

theorem optionalSignature_none {token : Token} (noColon : token.kind ≠ .colon) (nameToken : Token) (before : Nat)
    (more : List Token) : optionalSignature nameToken ⟨before, token :: more⟩ = .ok (none, ⟨before, token :: more⟩) := by
  simp [optionalSignature, noColon]

/-- What a definition with the given types, if it has a signature, reads as. -/
def defined (nameToken : Token) (types? : Option (List Ty)) (arguments : List String) (body : Body) : Parsed Block :=
  match types? with
  | none => .ok (untyped nameToken.body arguments body)
  | some types => typed nameToken.body nameToken.line types arguments body

/-- **A definition is read when its signature and its body are.** -/
theorem read_defined {types? : Option (List Ty)} {nameToken sign : Token} {window : Window} {line : Nat}
    {arguments : List String} (areNames : ∀ argument ∈ arguments, Sound.Name argument) (isAssign : sign.kind = .assign)
    {position : Position} {more : List Token}
    (signed : optionalSignature nameToken window =
      .ok (types?, ⟨line, ((spaced (arguments.map words)).shift level).tokens position ++ sign :: more⟩))
    {value : Body} (reads : read ⟨sign.line, more⟩ = .ok value) :
    Grammar.definition read nameToken window = defined nameToken types? arguments value := by
  obtain ⟨last, taken⟩ := takes_names level areNames (show sign.kind ≠ .identifier by simp [isAssign]) more line position
  rw [Grammar.definition, signed]
  simp only [bind, Except.bind, Window.takeNames, taken, expect_of_kind isAssign, reads]
  cases types? <;> rfl

/-- What a definition reads as in a window of its own. -/
theorem blockWith_name (nameToken : Token) (isName : nameToken.kind = .identifier) (before : Nat) (more : List Token) :
    blockWith read ⟨before, nameToken :: more⟩ = Grammar.definition read nameToken ⟨nameToken.line, more⟩ := by
  rw [blockWith]
  simp only [isName]

variable {arguments : List String} {value : Nat → Body}

/-- **A definition without a signature is read back.** -/
theorem reads_plainDefinition (isName : Sound.Name name) (areNames : ∀ argument ∈ arguments, Sound.Name argument)
    (reads : Reads read (bodyOf result) value) :
    Reads (blockWith read) (plainDefinition name arguments result) fun level =>
      untyped name arguments (value (level + 1)) := by
  intro level before position _
  obtain ⟨sign, place, isAssign, right, tokens⟩ := tokens_plainDefinition isName arguments result level position
  have body := reads (level + 1) sign.line place right
  have unsigned : ∀ nameToken line, optionalSignature nameToken
      ⟨line, ((spaced (arguments.map words)).shift level).tokens (position.after name.toList) ++
        sign :: ((bodyOf result).shift (level + 1)).tokens place⟩ =
      .ok (none, ⟨line, ((spaced (arguments.map words)).shift level).tokens (position.after name.toList) ++
        sign :: ((bodyOf result).shift (level + 1)).tokens place⟩) := by
    intro nameToken line
    cases arguments with
    | nil => exact optionalSignature_none (by simp [isAssign]) _ _ _
    | cons argument more =>
      rw [List.map_cons, spaced, shift_space, Doc.tokens, tokens_named (areNames argument List.mem_cons_self),
        List.cons_append]
      exact optionalSignature_none (by simp) _ _ _
  rw [tokens, blockWith_name _ rfl]
  exact read_defined areNames isAssign (unsigned _ _) body

/-- **A definition with its signature is read back.** -/
theorem reads_signedDefinition (isName : Sound.Name name) {t : Ty} (sound : Sound.Annotation t)
    (areNames : ∀ argument ∈ arguments, Sound.Name argument) (reads : Reads read (bodyOf result) value) (level before : Nat)
    (position : Position) :
    blockWith read ⟨before, ((signed true name t (plainDefinition name arguments result)).shift level).tokens position⟩ =
      typed name position.line (typeSides t) arguments (value (level + 1)) := by
  obtain ⟨colon, place, next, isColon, nextLine, -, lines, start⟩ :=
    tokens_signature isName sound (plainDefinition name arguments result) level position
  obtain ⟨sign, inner, isAssign, right, tokens⟩ := tokens_plainDefinition isName arguments result level next
  have body := reads (level + 1) sign.line inner right
  have signature : ∀ column more, optionalSignature ⟨.identifier, name, position.line, column⟩
      ⟨position.line, colon :: ((type t).tokens place ++ ⟨.identifier, name, next.line, next.column⟩ :: more)⟩ =
        .ok (some (typeSides t), ⟨next.line, more⟩) := by
    intro column more
    have found : Token.splitDefinition name colon ((type t).tokens place ++
        ⟨.identifier, name, next.line, next.column⟩ :: more) =
          some ⟨(type t).tokens place, ⟨.identifier, name, next.line, next.column⟩, more⟩ :=
      splitDefinition_next (List.forall_mem_cons.mp lines).2 (by rfl) (by rfl) (by rw [nextLine]; exact Nat.lt_succ_self _) more
    rw [optionalSignature]
    simp only [isColon, beq_self_eq_true, if_true, found, read_signature sound place]
    rfl
  rw [start, tokens, blockWith_name _ rfl]
  exact read_defined areNames isAssign (signature _ _) body

theorem eq_any {t : Ty} (isAny : t.isAny = true) : t = Ty.any := by
  match t with
  | .named name [] => rw [show name = "any" by simpa [Ty.isAny] using isAny]; rfl
  | .variable _ | .function _ | .named _ (_ :: _) => simp [Ty.isAny] at isAny

/-- **A constant is read back.** -/
theorem read_constant {type : Ty} (sound : Sound.Block (.constant ⟨name, type, result⟩))
    (reads : Reads read (bodyOf result) fun level => Settled.body level result) :
    Reads (blockWith read) (block (.constant ⟨name, type, result⟩)) fun level =>
      Settled.block level (.constant ⟨name, type, result⟩) := by
  rw [block_constant]
  cases isAny : type.isAny with
  | true =>
    obtain rfl := eq_any isAny
    exact reads_plainDefinition sound.1 (by simp) reads
  | false =>
    intro level before position _
    rw [Bool.not_false, reads_signedDefinition sound.1 sound.2 (by simp) reads, typed, typeOfParts_typeSides sound.2]
    rfl

/-- Parameters of which nothing is known are their names. -/
theorem filter_isNamed {parameters : List Parameter} (unknown : ∀ parameter ∈ parameters, parameter.type = .any) :
    parameters.filter Settled.isNamed = (argumentNames parameters).map fun argument => .named argument .any := by
  induction parameters with
  | nil => rfl
  | cons parameter rest step =>
    rw [List.forall_mem_cons] at unknown
    have later := step unknown.2
    cases parameter with
    | named argument type =>
      obtain rfl : type = .any := unknown.1
      simp only [List.filter_cons, Settled.isNamed, later]
      rfl
    | anonymous index type =>
      simp only [List.filter_cons, Settled.isNamed, later]
      rfl

/-- **A function is read back.** -/
theorem read_function {returnType : Ty} {parameters : List Parameter}
    (sound : Sound.Block (.function ⟨name, returnType, parameters, result⟩))
    (reads : Reads read (bodyOf result) fun level => Settled.body level result) :
    Reads (blockWith read) (block (.function ⟨name, returnType, parameters, result⟩)) fun level =>
      Settled.block level (.function ⟨name, returnType, parameters, result⟩) := by
  obtain ⟨isName, returns, declared⟩ := sound
  have areNames := declared.names
  have settled : ∀ level, Settled.block level (.function ⟨name, returnType, parameters, result⟩) =
      .function ⟨name, returnType, Settled.parameters parameters returnType, Settled.body (level + 1) result⟩ :=
    fun level => by rw [Settled.block]
  rw [block_function]
  simp only [settled]
  cases unknown : (parameters.map Parameter.type ++ [returnType]).all Ty.isAny with
  | true =>
    have named : Settled.parameters parameters returnType = parameters.filter Settled.isNamed := by
      rw [Settled.parameters, if_pos unknown]
    rw [List.all_append, Bool.and_eq_true, List.all_map, List.all_eq_true] at unknown
    have each : ∀ parameter ∈ parameters, parameter.type = .any := fun parameter member =>
      eq_any (unknown.1 parameter member)
    have returned : returnType = .any := eq_any (by simpa using unknown.2)
    have value : ∀ body, Block.function ⟨name, returnType, Settled.parameters parameters returnType, body⟩ =
        untyped name (argumentNames parameters) body := by
      intro body
      rw [named, filter_isNamed each, returned]
      cases arguments : argumentNames parameters with
      | nil => exact absurd arguments areNames.1
      | cons argument more => rfl
    simp only [value]
    exact reads_plainDefinition isName areNames.2 reads
  | false =>
    intro level before position _
    rw [Bool.not_false, reads_signedDefinition isName (declared.annotation returns) areNames.2 reads]
    have parameters_ : Settled.parameters parameters returnType = parameters := by
      rw [Settled.parameters, if_neg (by simp [unknown])]
    rw [parameters_]
    obtain ⟨names, types, some_, enough, -, -, rfl⟩ := declared
    rw [Sound.names_nameParameters enough, Sound.types_nameParameters, typeSides]
    cases names with
    | nil => exact absurd rfl some_
    | cons first more =>
      simp only [typed, List.dropLast_concat, List.getLast?_concat, Option.getD_some]
      rw [if_neg (Nat.not_lt.mpr enough)]

end Definitions

/-! ## Where definitions end -/

/-- Tokens on one line are quiet. -/
theorem quiet_of_lines {column line : Nat} {previous : Token} {tokens : List Token}
    (same : ∀ token ∈ previous :: tokens, token.line = line ∧ token.endLine = line) : Quiet column previous tokens := by
  induction tokens generalizing previous with
  | nil => trivial
  | cons token rest step =>
    rw [List.forall_mem_cons] at same
    refine ⟨fun starts => ?_, step same.2⟩
    simp [Token.startsLineAfter, same.1.2, (same.2 token List.mem_cons_self).1] at starts

/-- What is known of a declaration after some more tokens. -/
theorem foldl_push (opened : Opened) (tokens : List Token) :
    tokens.foldl Opened.push opened =
      ⟨opened.head, opened.second.or (tokens.head?.map Token.kind),
        opened.assigned || tokens.any fun token => token.kind == .assign⟩ := by
  induction tokens generalizing opened with
  | nil => simp
  | cons token rest step =>
    rw [List.foldl_cons, step]
    cases second : opened.second <;> simp [Opened.push, second, Bool.or_assoc]

/-- A declaration goes on with a token that starts none. -/
theorem continues_append {column : Nat} {opened : Opened} {previous next : Token} {tokens more : List Token}
    (quiet : Quiet column previous tokens)
    (goes : ∀ last, startsBlock column (tokens.foldl Opened.push opened) last next = false)
    (later : Quiet column next more) : Continues column opened previous (tokens ++ next :: more) := by
  induction tokens generalizing opened previous with
  | nil => exact ⟨goes previous, later.continues _⟩
  | cons token rest step => exact ⟨(quiet.continues opened).1, step quiet.2 goes⟩

/-- A definition without its signature hangs. -/
theorem hangs_plainDefinition {name : String} {arguments : List String}
    (areNames : ∀ argument ∈ name :: arguments, Sound.Name argument) (result : Body) :
    (plainDefinition name arguments result).Hangs where
  starts := by
    have phrase : Phrase false (joined beside ((name :: arguments).map words)) :=
      phrase_spacedNames (List.cons_ne_nil _ _) areNames
    rw [plainDefinition, above, chars_under, chars_beside, List.append_assoc]
    exact phrase.solid.1.append _
  hanging := by
    have flat : (joined beside ((name :: arguments).map words)).Flat :=
      flat_joined flat_beside (List.forall_mem_map.mpr fun argument member => flat_words (areNames argument member))
    simp only [plainDefinition, above, under, beside, assign, single, hanging_append, Doc.Hanging, flat.hanging, true_and]
    exact ⟨by decide, (bodyOf result).hanging_shift 0⟩

/-- A definition without its signature goes on to its end. -/
theorem declares_plainDefinition {name : String} {arguments : List String}
    (areNames : ∀ argument ∈ name :: arguments, Sound.Name argument) (result : Body) :
    (plainDefinition name arguments result).Declares := by
  refine (hangs_plainDefinition areNames result).declares fun level position => ?_
  obtain ⟨sign, place, isAssign, -, tokens⟩ :=
    tokens_plainDefinition (areNames name List.mem_cons_self) arguments result level position
  rw [tokens]
  intro first member
  obtain rfl := Option.some.inj member
  exact ⟨rfl, fun _ => ⟨sign, by simp, isAssign⟩⟩

/-- **A definition goes on to its end**, past the line end after its signature. -/
theorem declares_signedDefinition {name : String} {arguments : List String}
    (areNames : ∀ argument ∈ name :: arguments, Sound.Name argument) {t : Ty} (sound : Sound.Annotation t) (result : Body) :
    (signed true name t (plainDefinition name arguments result)).Declares := by
  have isName := areNames name List.mem_cons_self
  intro level position _
  obtain ⟨colon, place, next, isColon, -, -, lines, start⟩ :=
    tokens_signature isName sound (plainDefinition name arguments result) level position
  obtain ⟨sign, inner, isAssign, -, tokens⟩ := tokens_plainDefinition isName arguments result level next
  obtain ⟨first, rest, same, -, -, quiet⟩ := (hangs_plainDefinition areNames result).quiet level next
  rw [same] at tokens start
  obtain ⟨rfl, rfl⟩ := List.cons.inj tokens
  have unassigned : ((colon :: (type t).tokens place).any fun token => token.kind == .assign) = false := by
    rw [List.any_eq_false, List.forall_mem_cons]
    exact ⟨by simp [isColon], fun token member same =>
      (arrowed_type t sound place).no_assign token member (by simpa using same)⟩
  refine ⟨_, _, start, rfl, rfl, rfl, fun _ => ⟨sign, by simp, isAssign⟩, ?_⟩
  refine continues_append (quiet_of_lines lines) (fun last => ?_) quiet
  rw [foldl_push, unassigned]
  simp [startsBlock, Opened.ofHead, Opened.announces, isColon, Token.Kind.isComment]

end Written

end DerwLang
