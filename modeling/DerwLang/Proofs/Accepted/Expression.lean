/-
**The expressions that are read are sound.**

An operand is sound when the readers of what is nested in it read sound syntax (`Accepts`), and so is what a chain of sound
operands makes. Main facts:

* `accepts_atom`, `accepts_operand`: what is read of an operand is sound, and so are the tokens that are left;
* `accepts_chain`: a whole window is read as a sound expression.
-/

import DerwLang.Proofs.Accepted.Type
import DerwLang.Proofs.Layout.Name
import DerwLang.Proofs.Rules.Expression

namespace DerwLang

open Grammar

/-- The nested readers read sound syntax. -/
structure Accepts (nested : Nested) : Prop where
  expression : ∀ {window : Window} {value : Expression}, Grammatical window.tokens →
    nested.expression window = .ok value → value.Everywhere Sound.checks
  body : ∀ {window : Window} {value : Body}, Grammatical window.tokens → nested.body window = .ok value →
    value.Everywhere Sound.checks

/-! ## Numbers -/

theorem sound_rangeBound {tokens : List Token} {bound : String} (grammatical : Grammatical tokens)
    (read : rangeBound tokens = .ok bound) : Sound.Name bound ∨ IsWord .literal bound.toList := by
  obtain ⟨token, rfl, kind, rfl⟩ := token_of_rangeBound read
  have genuine := (grammatical_cons.mp grammatical).1.1
  exact kind.symm.imp genuine.name genuine.literal

/-- A literal that is no list starts with no bracket. -/
theorem not_bracket {token : Token} (isLiteral : token.kind = .literal) (plain : isListLiteral token = false) :
    token.body.toList.head? ≠ some '[' := by
  intro bracket
  obtain ⟨rest, chars⟩ := List.head?_eq_some_iff.mp bracket
  rw [isListLiteral, isLiteral, Text.startsWith, chars] at plain
  simp at plain

/-- A number with a minus in front is a negative number. -/
theorem sound_negative {number : Token} (genuine : number.Genuine) (isNumber : number.kind = .literal)
    (digit : number.body.toList.head?.any Char.isDigit = true) : Sound.Negative ("-" ++ number.body) := by
  have isWord := genuine.literal isNumber
  cases chars : number.body.toList with
  | nil => simp [chars] at digit
  | cons c rest =>
    rw [chars] at isWord digit
    exact ⟨c, rest, by simp [chars], by simpa using digit, isWord⟩

/-! ## Records and lists -/

/-- What a chain of sound operands makes is sound. -/
theorem everywhere_group {first : Expression} {links : List Link} (sound : first.Everywhere Sound.checks)
    (others : ∀ link ∈ links, link.operand.Everywhere Sound.checks) : (Chain.group first links).Everywhere Sound.checks := by
  have closed : ∀ (precedence : Nat) (waiting : List Waiting) (operand : Expression), operand.Everywhere Sound.checks →
      (∀ top ∈ waiting, top.operand.Everywhere Sound.checks) →
        (Chain.close precedence operand waiting).1.Everywhere Sound.checks ∧
          ∀ top ∈ (Chain.close precedence operand waiting).2, top.operand.Everywhere Sound.checks := by
    intro precedence waiting operand sound below
    fun_induction Chain.close precedence operand waiting with
    | case1 => exact ⟨sound, by simp⟩
    | case2 operand top below' closes step =>
      rw [List.forall_mem_cons] at below
      exact step (everywhere_binary.mpr ⟨trivial, below.1, sound⟩) below.2
    | case3 => exact ⟨sound, below⟩
  have grouped : ∀ (links : List Link) (waiting : List Waiting) (operand : Expression), operand.Everywhere Sound.checks →
      (∀ top ∈ waiting, top.operand.Everywhere Sound.checks) →
        (∀ link ∈ links, link.operand.Everywhere Sound.checks) →
          (Chain.groupFrom waiting operand links).Everywhere Sound.checks := by
    intro links
    induction links with
    | nil => exact fun waiting operand sound below _ => (closed 0 waiting operand sound below).1
    | cons link rest step =>
      intro waiting operand sound below others
      rw [List.forall_mem_cons] at others
      obtain ⟨whole, left⟩ := closed link.operator.precedence waiting operand sound below
      exact step _ _ others.1 (List.forall_mem_cons.mpr ⟨whole, left⟩) others.2
  exact grouped links [] first sound (by simp) others

section Operands

variable {nested : Nested} (accepts : Accepts nested)

include accepts

theorem accepts_recordField {window : Window} {field : Field} (grammatical : Grammatical window.tokens)
    (rule : RecordFieldRule nested window field) : Sound.Name field.name ∧ field.value.Everywhere Sound.checks := by
  obtain ⟨tokens, isName, -, found⟩ := rule
  rw [tokens] at grammatical
  obtain ⟨first, later⟩ := grammatical_cons.mp grammatical
  exact ⟨first.1.name isName, accepts.expression (grammatical_cons.mp later).2 found⟩

/-- What is known of a record literal that is read. -/
def SoundRecord (literal : RecordLiteral) : Prop :=
  Sound.RecordLiteral literal ∧ ∀ field ∈ literal.fields, field.value.Everywhere Sound.checks

theorem accepts_recordFields {windows : List Window} {literal : RecordLiteral}
    (grammatical : ∀ window ∈ windows, Grammatical window.tokens) (rule : RecordFieldsRule nested windows literal) :
    SoundRecord literal := by
  have fields_ : ∀ {windows : List Window} {fields : List Field}, (∀ window ∈ windows, Grammatical window.tokens) →
      List.Forall₂ (RecordFieldRule nested) windows fields →
        ∀ field ∈ fields, Sound.Name field.name ∧ field.value.Everywhere Sound.checks :=
    fun grammatical each => forall_right_of_forall₂ each fun window member field own =>
      accepts_recordField accepts (grammatical window member) own
  cases rule with
  | based tokens isName each =>
    obtain ⟨first, later⟩ := List.forall_mem_cons.mp grammatical
    rw [tokens] at first
    have base := (grammatical_cons.mp first).1.1.name isName
    have sound := fields_ later each
    exact ⟨⟨by simpa using base, fun field member => (sound field member).1⟩, fun field member => (sound field member).2⟩
  | plain each =>
    have sound := fields_ grammatical each
    exact ⟨⟨by simp, fun field member => (sound field member).1⟩, fun field member => (sound field member).2⟩

theorem accepts_recordLiteral {opening : Nat} {rest : List Token} {literal : RecordLiteral} {ending : Window}
    (grammatical : Grammatical rest) (rule : RecordLiteralRule nested opening rest literal ending) :
    SoundRecord literal ∧ Grammatical ending.tokens := by
  cases rule with
  | empty cuts => exact ⟨⟨⟨by simp, by simp⟩, by simp⟩, (grammatical.cut cuts.whole).2.2⟩
  | fields cuts fields =>
    obtain ⟨inside, -, after⟩ := grammatical.cut cuts.whole
    exact ⟨accepts_recordFields accepts (inside.splitFrom _ 0 _) fields, after⟩

theorem accepts_listLiteral {tokens : List Token} {value : Expression} (grammatical : Grammatical tokens)
    (rule : ListLiteralRule nested tokens value) : value.Everywhere Sound.checks := by
  cases rule with
  | empty => exact everywhere_list.mpr ⟨trivial, by simp⟩
  | range cuts one two =>
    obtain ⟨inside, -, after⟩ := grammatical.cut cuts.whole
    exact ⟨⟨sound_rangeBound inside one, sound_rangeBound after two⟩, trivial⟩
  | items each =>
    exact everywhere_list.mpr ⟨trivial, forall_right_of_forall₂ each fun window member _ own =>
      accepts.expression (grammatical.splitFrom _ 0 _ window member) own⟩

omit accepts in
theorem grammatical_listTokens (literal : Token) : Grammatical (listTokens literal) :=
  grammatical_significant fun _ member => genuine_tokenizeAt member

/-! ## Atoms -/

/-- **An atom that is read is sound**, and the tokens that are left are grammatical. -/
theorem accepts_atom {window ending : Window} {value : Expression} (grammatical : Grammatical window.tokens)
    (rule : AtomRule nested window value ending) : value.Everywhere Sound.checks ∧ Grammatical ending.tokens := by
  cases rule with
  | list tokens _ _ found =>
    rw [tokens] at grammatical
    exact ⟨accepts_listLiteral accepts (grammatical_listTokens _) found, (grammatical_cons.mp grammatical).2⟩
  | literal tokens isLiteral plain =>
    rw [tokens] at grammatical
    obtain ⟨first, later⟩ := grammatical_cons.mp grammatical
    exact ⟨⟨.inr (.inl ⟨first.1.literal isLiteral, not_bracket isLiteral plain⟩), trivial⟩, later⟩
  | string tokens isString =>
    rw [tokens] at grammatical
    obtain ⟨first, later⟩ := grammatical_cons.mp grammatical
    exact ⟨⟨first.1.quoted isString, trivial⟩, later⟩
  | formatString tokens isFormatString =>
    rw [tokens] at grammatical
    obtain ⟨first, later⟩ := grammatical_cons.mp grammatical
    exact ⟨⟨first.1.backquoted isFormatString, trivial⟩, later⟩
  | brackets tokens _ cuts found =>
    rw [tokens] at grammatical
    obtain ⟨inside, -, after⟩ := (grammatical_cons.mp grammatical).2.cut cuts.whole
    exact ⟨accepts.expression inside found, after⟩
  | @record _ _ literal _ tokens _ found =>
    rw [tokens] at grammatical
    obtain ⟨base, fields⟩ := literal
    obtain ⟨sound, after⟩ := accepts_recordLiteral accepts (grammatical_cons.mp grammatical).2 found
    exact ⟨everywhere_record.mpr sound, after⟩
  | name tokens isName =>
    rw [tokens] at grammatical
    obtain ⟨first, later⟩ := grammatical_cons.mp grammatical
    exact ⟨Written.everywhere_reference (first.1.name isName) (by simp) (by simp), later⟩
  | @tagged _ _ _ literal _ tokens isName capital dotless _ found =>
    rw [tokens] at grammatical
    obtain ⟨base, fields⟩ := literal
    obtain ⟨first, later⟩ := grammatical_cons.mp grammatical
    obtain ⟨sound, after⟩ := accepts_recordLiteral accepts (grammatical_cons.mp later).2 found
    exact ⟨everywhere_construct.mpr ⟨⟨⟨first.1.name isName, capital, dotless⟩, sound.1⟩, sound.2⟩, after⟩
  | negative tokens _ isNumber digit =>
    rw [tokens] at grammatical
    obtain ⟨second, left⟩ := grammatical_cons.mp (grammatical_cons.mp grammatical).2
    exact ⟨⟨.inr (.inr (sound_negative second.1 isNumber digit)), trivial⟩, left⟩

theorem accepts_arguments {window ending : Window} {values : List Expression} (grammatical : Grammatical window.tokens)
    (rule : ArgumentsRule nested window values ending) :
    (∀ value ∈ values, value.Everywhere Sound.checks) ∧ Grammatical ending.tokens := by
  induction rule with
  | nil => exact ⟨by simp, grammatical⟩
  | cons found _ step =>
    obtain ⟨sound, left⟩ := accepts_atom accepts grammatical found
    obtain ⟨others, last⟩ := step left
    exact ⟨List.forall_mem_cons.mpr ⟨sound, others⟩, last⟩

/-! ## Constructs -/

theorem accepts_conditional {window : Window} {value : Expression} (grammatical : Grammatical window.tokens)
    (rule : ConditionalRule nested window value) : value.Everywhere Sound.checks := by
  obtain ⟨then_, else_, one, two, three⟩ := rule
  obtain ⟨before, -, after⟩ := grammatical.cut then_.whole
  obtain ⟨between, -, last⟩ := after.cut else_.whole
  exact everywhere_conditional.mpr
    ⟨trivial, accepts.expression before one, accepts.body between two, accepts.body last three⟩

theorem accepts_branch {window : Window} {value : Branch} (grammatical : Grammatical window.tokens)
    (rule : BranchRule nested window value) : Sound.Pattern value.pattern ∧ value.body.Everywhere Sound.checks := by
  obtain ⟨cuts, one, two⟩ := rule
  obtain ⟨before, -, after⟩ := grammatical.cut cuts.whole
  exact ⟨sound_pattern before one, accepts.body after two⟩

theorem accepts_branches {window : Window} {values : List Branch} (grammatical : Grammatical window.tokens)
    (rule : BranchesRule nested window values) :
    values ≠ [] ∧ ∀ value ∈ values, Sound.Pattern value.pattern ∧ value.body.Everywhere Sound.checks := by
  obtain ⟨tokens, each⟩ := rule
  rw [tokens] at grammatical
  refine ⟨?_, forall_right_of_forall₂ each fun part member value own =>
    accepts_branch accepts (forall_splitStarts grammatical _ _ part member) own⟩
  rw [← List.length_pos_iff, ← each.length_eq, List.length_pos_iff]
  exact splitStarts_ne_nil _ _ _ _

theorem accepts_caseOf {window : Window} {value : Expression} (grammatical : Grammatical window.tokens)
    (rule : CaseRule nested window value) : value.Everywhere Sound.checks := by
  obtain ⟨cuts, one, two⟩ := rule
  obtain ⟨before, -, after⟩ := grammatical.cut cuts.whole
  obtain ⟨some_, sound⟩ := accepts_branches accepts after two
  exact everywhere_caseOf.mpr ⟨some_, accepts.expression before one, sound⟩

theorem accepts_lambda {window : Window} {value : Lambda} (grammatical : Grammatical window.tokens)
    (rule : LambdaRule nested window value) : (Expression.lambda value).Everywhere Sound.checks := by
  obtain ⟨tokens, some_, areNames, -, found⟩ := rule
  obtain ⟨names, later⟩ := grammatical.names tokens areNames
  exact everywhere_lambda.mpr ⟨⟨by simpa using some_, names⟩, accepts.expression (grammatical_cons.mp later).2 found⟩

/-! ## Operands and chains -/

/-- **An operand that is read is sound**, and the tokens that are left are grammatical. -/
theorem accepts_operand {window ending : Window} {value : Expression} (grammatical : Grammatical window.tokens)
    (rule : OperandRule nested window value ending) : value.Everywhere Sound.checks ∧ Grammatical ending.tokens := by
  have none_ : Grammatical window.finished.tokens := by simp [Grammatical, Window.finished]
  cases rule with
  | conditional tokens _ found =>
    rw [tokens] at grammatical
    exact ⟨accepts_conditional accepts (grammatical_cons.mp grammatical).2 found, none_⟩
  | caseOf tokens _ found =>
    rw [tokens] at grammatical
    exact ⟨accepts_caseOf accepts (grammatical_cons.mp grammatical).2 found, none_⟩
  | lambda tokens _ found =>
    rw [tokens] at grammatical
    exact ⟨accepts_lambda accepts (grammatical_cons.mp grammatical).2 found, none_⟩
  | application tokens isName noTag found =>
    rw [tokens] at grammatical
    obtain ⟨first, later⟩ := grammatical_cons.mp grammatical
    obtain ⟨sound, left⟩ := accepts_arguments accepts later found
    exact ⟨Written.everywhere_reference (first.1.name isName) sound fun _ => noTag, left⟩
  | atom found => exact accepts_atom accepts grammatical found

theorem accepts_links {window ending : Window} {values : List Link} (grammatical : Grammatical window.tokens)
    (rule : LinksRule nested window values ending) : ∀ link ∈ values, link.operand.Everywhere Sound.checks := by
  induction rule with
  | nil => simp
  | cons tokens _ found _ step =>
    rw [tokens] at grammatical
    obtain ⟨sound, left⟩ := accepts_operand accepts (grammatical_cons.mp grammatical).2 found
    exact List.forall_mem_cons.mpr ⟨sound, step left⟩

/-- **A window is read as a sound expression.** -/
theorem accepts_chain {window : Window} {value : Expression} (grammatical : Grammatical window.tokens)
    (rule : ChainRule nested window value) : value.Everywhere Sound.checks := by
  obtain ⟨one, two, -⟩ := rule
  obtain ⟨sound, later⟩ := accepts_operand accepts grammatical one
  exact everywhere_group sound (accepts_links accepts later two)

end Operands

end DerwLang
