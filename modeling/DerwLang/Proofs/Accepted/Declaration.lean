/-
**The declarations that are read are sound.**

With declarations the readers of what is nested are complete, and what they read is sound by induction on how deep they go.
Main facts:

* `accepts_at`: nested readers of any depth read sound syntax;
* `sound_expression`, `sound_block`: so do the readers of the grammar;
* `sound_parse`: the module that a source is read as is sound everywhere.
-/

import DerwLang.Grammar.Module
import DerwLang.Proofs.Accepted.Expression

namespace DerwLang

open Grammar

/-! ## Imports and exports -/

theorem sound_namesUpToClose {before : Nat} {tokens : List Token} {names : List String} {ending : Window}
    (grammatical : Grammatical tokens) (read : namesUpToClose before tokens = .ok (names, ending)) :
    (∀ name ∈ names, Sound.Name name) ∧ Grammatical ending.tokens := by
  fun_induction namesUpToClose before tokens generalizing names ending with
  | case1 => simp at read
  | case2 before token rest closes =>
    obtain ⟨rfl, rfl⟩ := Prod.mk.inj (Except.ok.inj read)
    exact ⟨by simp, (grammatical_cons.mp grammatical).2⟩
  | case3 before token rest isName step =>
    obtain ⟨first, later⟩ := grammatical_cons.mp grammatical
    obtain ⟨⟨others, final⟩, found, read⟩ := ok_of_bind read
    obtain ⟨rfl, rfl⟩ := Prod.mk.inj (Except.ok.inj read)
    obtain ⟨sound, left⟩ := step later found
    exact ⟨List.forall_mem_cons.mpr ⟨first.1.name isName, sound⟩, left⟩
  | case4 before token rest comma step => exact step (grammatical_cons.mp grammatical).2 read
  | case5 before token rest range step => exact step (grammatical_cons.mp grammatical).2 read
  | case6 => simp at read

theorem sound_nameList {window ending : Window} {names : List String} (grammatical : Grammatical window.tokens)
    (read : nameList window = .ok (names, ending)) : (∀ name ∈ names, Sound.Name name) ∧ Grammatical ending.tokens := by
  rw [nameList] at read
  obtain ⟨⟨opening, rest⟩, expected, read⟩ := ok_of_bind read
  exact sound_namesUpToClose (grammatical.expect expected).2.2 read

theorem sound_importing {start : Token} {window : Window} {value : Block} (grammatical : Grammatical window.tokens)
    (read : importing start window = .ok value) : value.Everywhere Sound.checks := by
  rw [importing] at read
  obtain ⟨⟨name, origin, first⟩, named, read⟩ := ok_of_bind read
  obtain ⟨⟨alias?, second⟩, known, read⟩ := ok_of_bind read
  obtain ⟨⟨exposing, third⟩, used, read⟩ := ok_of_bind read
  obtain ⟨_, -, read⟩ := ok_of_bind read
  obtain rfl := Except.ok.inj read
  have isModule : (origin = .library ∧ Sound.Name name ∨ origin = .path ∧ Sound.Quoted name) ∧
      Grammatical first.tokens := by
    cases tokens : window.tokens with
    | nil => simp [tokens] at named
    | cons token rest =>
      simp only [tokens] at named
      rw [tokens] at grammatical
      obtain ⟨genuine, later⟩ := grammatical_cons.mp grammatical
      split at named
      · rename_i isName
        obtain ⟨rfl, rfl, rfl⟩ : token.body = name ∧ .library = origin ∧ ⟨token.line, rest⟩ = first := by
          simpa using named
        exact ⟨.inl ⟨rfl, genuine.1.name isName⟩, later⟩
      · rename_i isString
        obtain ⟨rfl, rfl, rfl⟩ : unquote token.body = name ∧ .path = origin ∧ ⟨token.line, rest⟩ = first := by
          simpa using named
        exact ⟨.inr ⟨rfl, genuine.1.quoted isString⟩, later⟩
      · simp [Window.error] at named
  have isAlias : (∀ name ∈ alias?, Sound.Name name) ∧ Grammatical second.tokens := by
    dsimp only at known
    split at known
    · obtain ⟨⟨other, rest⟩, expected, known⟩ := ok_of_bind known
      obtain ⟨rfl, rfl⟩ := Prod.mk.inj (Except.ok.inj known)
      obtain ⟨isName, genuine, later⟩ := Grammatical.expect isModule.2.tail expected
      exact ⟨by simpa using genuine.name isName, later⟩
    · obtain ⟨rfl, rfl⟩ := Prod.mk.inj (Except.ok.inj known)
      exact ⟨by simp, isModule.2⟩
  have areNames : ∀ name ∈ exposing, Sound.Name name := by
    split at used
    · exact (sound_nameList isAlias.2.tail used).1
    · obtain ⟨rfl, rfl⟩ := Prod.mk.inj (Except.ok.inj used)
      simp
  refine ⟨_, rfl, ?_, isAlias.1, areNames⟩
  rcases isModule.1 with ⟨rfl, sound⟩ | ⟨rfl, sound⟩ <;> exact sound

theorem sound_exposing {window : Window} {value : Block} (grammatical : Grammatical window.tokens)
    (read : exposing window = .ok value) : value.Everywhere Sound.checks := by
  rw [exposing] at read
  obtain ⟨⟨names, rest⟩, found, read⟩ := ok_of_bind read
  obtain ⟨_, -, read⟩ := ok_of_bind read
  obtain rfl := Except.ok.inj read
  exact (sound_nameList grammatical found).1

/-! ## Declared types -/

theorem sound_typedField {opening : Nat} {window : Window} {field : TypedField} (grammatical : Grammatical window.tokens)
    (read : typedField opening window = .ok field) : Sound.TypedField field := by
  rw [typedField.eq_def] at read
  dsimp only at read
  split at read
  · rename_i name colon first rest tokens
    rw [tokens] at grammatical
    obtain ⟨genuine, later⟩ := grammatical_cons.mp grammatical
    split at read
    · rename_i kinds
      obtain ⟨type, found, read⟩ := ok_of_bind read
      obtain rfl := Except.ok.inj read
      simp only [Bool.and_eq_true, beq_iff_eq] at kinds
      exact ⟨genuine.1.name kinds.1, sound_typeOf (grammatical_cons.mp later).2 found⟩
    · simp at read
  · simp at read

theorem sound_typedFields {window ending : Window} {fields : List TypedField} (grammatical : Grammatical window.tokens)
    (read : typedFields window = .ok (fields, ending)) :
    (∀ field ∈ fields, Sound.TypedField field) ∧ Grammatical ending.tokens := by
  rw [typedFields] at read
  obtain ⟨⟨opening, rest⟩, expected, read⟩ := ok_of_bind read
  have later := (grammatical.expect expected).2.2
  dsimp only at read
  split at read
  · simp at read
  · rename_i cut found
    obtain ⟨inside, -, after⟩ := later.cut (Token.splitClose_eq found)
    split at read
    · obtain ⟨rfl, rfl⟩ := Prod.mk.inj (Except.ok.inj read)
      exact ⟨by simp, after⟩
    · obtain ⟨own, all, read⟩ := ok_of_bind read
      obtain ⟨rfl, rfl⟩ := Prod.mk.inj (Except.ok.inj read)
      exact ⟨forall_of_mapM all fun part member field read =>
        sound_typedField (inside.splitFrom _ 0 _ part member) read, after⟩

theorem sound_tag {window ending : Window} {value : Tag} (grammatical : Grammatical window.tokens)
    (read : tag window = .ok (value, ending)) : Sound.Tag value ∧ Grammatical ending.tokens := by
  rw [tag] at read
  obtain ⟨⟨name, rest⟩, expected, read⟩ := ok_of_bind read
  obtain ⟨isName, genuine, later⟩ := grammatical.expect expected
  dsimp only at read
  split at read
  · obtain ⟨⟨fields, final⟩, found, read⟩ := ok_of_bind read
    obtain ⟨rfl, rfl⟩ := Prod.mk.inj (Except.ok.inj read)
    obtain ⟨sound, left⟩ := sound_typedFields later found
    exact ⟨⟨genuine.name isName, sound⟩, left⟩
  · obtain ⟨rfl, rfl⟩ := Prod.mk.inj (Except.ok.inj read)
    exact ⟨⟨genuine.name isName, by simp⟩, later⟩

theorem sound_tags {window ending : Window} {values : List Tag} (grammatical : Grammatical window.tokens)
    (read : tags window = .ok (values, ending)) : values ≠ [] ∧ ∀ value ∈ values, Sound.Tag value := by
  fun_induction tags window generalizing values ending with
  | case1 => simp at read
  | case2 window first rest found bar step =>
    obtain ⟨sound, left⟩ := sound_tag grammatical found
    obtain ⟨⟨others, final⟩, later, read⟩ := ok_of_bind read
    obtain ⟨rfl, rfl⟩ := Prod.mk.inj (Except.ok.inj read)
    exact ⟨List.cons_ne_nil _ _, List.forall_mem_cons.mpr ⟨sound, (step left.tail later).2⟩⟩
  | case3 window first rest found last =>
    obtain ⟨rfl, rfl⟩ := Prod.mk.inj (Except.ok.inj read)
    exact ⟨List.cons_ne_nil _ _, by simpa using (sound_tag grammatical found).1⟩

theorem sound_unionType {window : Window} {value : Block} (grammatical : Grammatical window.tokens)
    (read : unionType window = .ok value) : value.Everywhere Sound.checks := by
  rw [unionType] at read
  obtain ⟨⟨name, rest⟩, expected, read⟩ := ok_of_bind read
  obtain ⟨isName, genuine, later⟩ := grammatical.expect expected
  obtain ⟨areNames, left⟩ := later.takeNames
  obtain ⟨⟨sign, next⟩, signed, read⟩ := ok_of_bind read
  obtain ⟨-, -, after⟩ := left.expect signed
  obtain ⟨⟨declared, final⟩, found, read⟩ := ok_of_bind read
  obtain ⟨_, -, read⟩ := ok_of_bind read
  obtain rfl := Except.ok.inj read
  exact ⟨⟨_, _, rfl, genuine.name isName, areNames⟩, sound_tags after found⟩

theorem sound_typeAlias {window : Window} {value : Block} (grammatical : Grammatical window.tokens)
    (read : typeAlias window = .ok value) : value.Everywhere Sound.checks := by
  rw [typeAlias] at read
  obtain ⟨⟨name, rest⟩, expected, read⟩ := ok_of_bind read
  obtain ⟨isName, genuine, later⟩ := grammatical.expect expected
  obtain ⟨areNames, left⟩ := later.takeNames
  obtain ⟨⟨sign, next⟩, signed, read⟩ := ok_of_bind read
  obtain ⟨-, -, after⟩ := left.expect signed
  obtain ⟨⟨properties, final⟩, found, read⟩ := ok_of_bind read
  obtain ⟨_, -, read⟩ := ok_of_bind read
  obtain rfl := Except.ok.inj read
  exact ⟨⟨_, _, rfl, genuine.name isName, areNames⟩, (sound_typedFields after found).1⟩

/-! ## Definitions -/

/-- The type of which nothing is known can be read. -/
theorem sound_any : Sound.Annotation .any := by
  have isName : Sound.Name "any" := by
    rw [Sound.Name, IsWord]
    decide
  exact annotation_ofName isName

/-- The parameters of a definition without a signature. -/
theorem nameParameters_any (index : Nat) (names : List String) :
    nameParameters index names (names.map fun _ => .any) = names.map fun name => .named name .any := by
  induction names generalizing index with
  | nil => rfl
  | cons name rest step => rw [List.map_cons, List.map_cons, nameParameters, step]

theorem sound_untyped {name : String} {arguments : List String} {result : Body} (isName : Sound.Name name)
    (areNames : ∀ argument ∈ arguments, Sound.Name argument) (sound : result.Everywhere Sound.checks) :
    (untyped name arguments result).Everywhere Sound.checks := by
  cases arguments with
  | nil => exact ⟨⟨isName, sound_any⟩, sound⟩
  | cons first rest =>
    refine ⟨⟨isName, sound_any, first :: rest, (first :: rest).map fun _ => .any, List.cons_ne_nil _ _, ?_, areNames, ?_,
      (nameParameters_any 0 (first :: rest)).symm⟩, sound⟩
    · rw [List.length_map]
    · exact List.forall_mem_map.mpr fun _ _ => sound_any

theorem sound_typed {name : String} {line : Nat} {types : List Ty} {arguments : List String} {result : Body}
    {value : Block} (isName : Sound.Name name) (some_ : types ≠ []) (areTypes : ∀ type ∈ types, Sound.Annotation type)
    (areNames : ∀ argument ∈ arguments, Sound.Name argument) (sound : result.Everywhere Sound.checks)
    (read : typed name line types arguments result = .ok value) : value.Everywhere Sound.checks := by
  cases arguments with
  | nil =>
    obtain rfl := Except.ok.inj read
    exact ⟨⟨isName, annotation_typeOfParts some_ areTypes⟩, sound⟩
  | cons first rest =>
    rw [typed.eq_def] at read
    dsimp only at read
    split at read
    · simp at read
    · rename_i enough
      obtain rfl := Except.ok.inj read
      have returned : Sound.Annotation (types.getLast?.getD .any) := by
        rw [List.getLast?_eq_some_getLast some_, Option.getD_some]
        exact areTypes _ (List.getLast_mem some_)
      exact ⟨⟨isName, returned, first :: rest, types.dropLast, List.cons_ne_nil _ _, Nat.not_lt.mp enough, areNames,
        fun type member => areTypes type (List.dropLast_subset types member), rfl⟩, sound⟩

theorem sound_announced {window ending : Window} {types? : Option (List Ty)} (grammatical : Grammatical window.tokens)
    (rule : SignatureRule window types? ending) :
    (∀ types ∈ types?, types ≠ [] ∧ ∀ type ∈ types, Sound.Annotation type) ∧ Grammatical ending.tokens := by
  cases rule with
  | none => exact ⟨by simp, grammatical⟩
  | some tokens _ cuts found =>
    rw [tokens] at grammatical
    obtain ⟨inside, -, after⟩ := (grammatical_cons.mp grammatical).2.cut cuts.whole
    exact ⟨by simpa using sound_signature inside found, after⟩

section Nested

variable {nested : Nested} (accepts : Accepts nested)

include accepts

theorem accepts_argumentNames {window : Window} {names : List String} {result : Body}
    (grammatical : Grammatical window.tokens) (rule : ArgumentNamesRule nested.body window names result) :
    (∀ name ∈ names, Sound.Name name) ∧ result.Everywhere Sound.checks := by
  obtain ⟨tokens, areNames, -, found⟩ := rule
  obtain ⟨sound, later⟩ := grammatical.names tokens areNames
  exact ⟨sound, accepts.body (grammatical_cons.mp later).2 found⟩

/-- **A definition that is read is sound**, when bodies are. -/
theorem accepts_definition {name : Token} {window : Window} {value : Block} (isName : Sound.Name name.body)
    (grammatical : Grammatical window.tokens) (rule : DefinitionRule nested.body name window value) :
    value.Everywhere Sound.checks := by
  cases rule with
  | untyped announced defined =>
    obtain ⟨areNames, sound⟩ := accepts_argumentNames accepts (sound_announced grammatical announced).2 defined
    exact sound_untyped isName areNames sound
  | typed announced defined made =>
    obtain ⟨areTypes, later⟩ := sound_announced grammatical announced
    obtain ⟨some_, areTypes⟩ := areTypes _ rfl
    obtain ⟨areNames, sound⟩ := accepts_argumentNames accepts later defined
    exact sound_typed isName some_ areTypes areNames sound made

/-- **A declaration that is read is sound**, when bodies are. -/
theorem accepts_block {window : Window} {value : Block} (grammatical : Grammatical window.tokens)
    (rule : BlockRule nested.body window value) : value.Everywhere Sound.checks := by
  cases rule with
  | importing tokens found =>
    rw [tokens] at grammatical
    exact sound_importing (grammatical_cons.mp grammatical).2 found
  | exposing tokens found =>
    rw [tokens] at grammatical
    exact sound_exposing (grammatical_cons.mp grammatical).2 found
  | typeAlias tokens found =>
    rw [tokens] at grammatical
    exact sound_typeAlias (grammatical_cons.mp (grammatical_cons.mp grammatical).2).2 found
  | unionType tokens found =>
    rw [tokens] at grammatical
    exact sound_unionType (grammatical_cons.mp grammatical).2 found
  | definition tokens isName found =>
    rw [tokens] at grammatical
    obtain ⟨first, later⟩ := grammatical_cons.mp grammatical
    exact accepts_definition accepts (first.1.name isName) later found

theorem accepts_locals {window : Window} {values : List Block} (grammatical : Grammatical window.tokens)
    (rule : LocalsRule nested.body window values) :
    ∀ value ∈ values, isDefinition value = true ∧ value.Everywhere Sound.checks := by
  obtain ⟨-, each⟩ := rule
  exact forall_right_of_forall₂ each fun part member value own =>
    ⟨own.2, accepts_block accepts (forall_splitBlocks grammatical part member) own.1⟩

/-- **A window is read as a sound body.** -/
theorem accepts_body {window : Window} {value : Body} (grammatical : Grammatical window.tokens)
    (rule : BodyRule nested window value) : value.Everywhere Sound.checks := by
  cases rule with
  | letIn tokens _ cuts one two =>
    rw [tokens] at grammatical
    obtain ⟨inside, -, after⟩ := (grammatical_cons.mp grammatical).2.cut cuts.whole
    have defined := accepts_locals accepts inside one
    exact everywhere_body.mpr ⟨fun block member => (defined block member).1,
      fun block member => (defined block member).2, accepts.expression after two⟩
  | plain found => exact everywhere_body.mpr ⟨by simp [Sound.checks], by simp, accepts_chain accepts grammatical found⟩

end Nested

/-! ## The readers of the grammar -/

/-- **Readers that nest to any depth read sound syntax.** -/
theorem accepts_at (depth : Nat) : Accepts ⟨expressionAt depth, bodyAt depth⟩ := by
  induction depth with
  | zero => refine ⟨fun _ read => ?_, fun _ read => ?_⟩ <;> cases read
  | succ depth step =>
    exact ⟨fun grammatical read => accepts_chain step grammatical (expressionStep_rule read),
      fun grammatical read => accepts_body step grammatical (bodyStep_rule read)⟩

/-- A window is read as a sound expression. -/
theorem sound_expression {window : Window} {value : Expression} (grammatical : Grammatical window.tokens)
    (read : Grammar.expression window = .ok value) : value.Everywhere Sound.checks :=
  (accepts_at window.weight).expression grammatical read

/-- A window is read as a sound declaration. -/
theorem sound_block {window : Window} {value : Block} (grammatical : Grammatical window.tokens)
    (read : Grammar.block window = .ok value) : value.Everywhere Sound.checks := by
  have accepts : Accepts ⟨Grammar.expression, Grammar.body⟩ :=
    ⟨sound_expression, fun grammatical read => (accepts_at _).body grammatical read⟩
  exact accepts_block accepts grammatical (block_rule read)

/-! ## Sources -/

/-- **The single expression of a source is sound.** -/
theorem sound_parseExpression {source : String} {value : Expression} (read : parseExpression source = .ok value) :
    value.Everywhere Sound.checks :=
  sound_expression (grammatical_significant fun _ member => genuine_tokenizeAt member) read

/-- The tokens of a declaration are read as a sound one. -/
theorem sound_blockOfTokens {tokens : List Token} (genuine : ∀ token ∈ tokens, token.Genuine) {value : Block}
    (read : blockOfTokens tokens = .ok (some value)) : value.Everywhere Sound.checks := by
  have declared : ∀ {result : Option Block},
      (if (Token.significant tokens).isEmpty then .ok none
        else some <$> Grammar.block ⟨lineOf (Token.significant tokens), Token.significant tokens⟩ :
          Parsed (Option Block)) = .ok result → ∀ value ∈ result, value.Everywhere Sound.checks := by
    intro result read
    split at read
    · obtain rfl := Except.ok.inj read
      simp
    · obtain ⟨value, found, rfl⟩ := ok_of_map read
      simpa using sound_block (grammatical_significant genuine) found
  rcases tokens with _ | ⟨token, _ | ⟨next, more⟩⟩
  · exact declared read value rfl
  · obtain ⟨kind, body, line, column⟩ := token
    have own := genuine ⟨kind, body, line, column⟩ List.mem_cons_self
    cases kind with
    | comment =>
      obtain rfl : Block.comment body = value := Option.some.inj (Except.ok.inj read)
      exact own rfl
    | multilineComment =>
      obtain rfl : Block.multilineComment body = value := Option.some.inj (Except.ok.inj read)
      exact own rfl
    | _ => exact declared read value rfl
  · exact declared read value rfl

/-- **The module that a source is read as is sound everywhere.** -/
theorem sound_parse (source : String) : (parse source).Everywhere Sound.checks := by
  intro value member
  obtain ⟨read, among, some_⟩ := List.mem_filterMap.mp member
  obtain ⟨tokens, cut, rfl⟩ := List.mem_map.mp among
  obtain ⟨window, part, rfl⟩ := List.mem_map.mp cut
  have genuine : ∀ token ∈ window.tokens, token.Genuine :=
    forall_splitBlocks (fun token member => genuine_tokenizeAt (List.mem_of_mem_filter member)) window part
  cases found : blockOfTokens window.tokens with
  | error error => simp [found, blockOf?] at some_
  | ok result =>
    obtain rfl : result = some value := by simpa [found, blockOf?] using some_
    exact sound_blockOfTokens genuine found

end DerwLang
