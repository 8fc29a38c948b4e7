/-
**What written syntax reads as.**

Text of the canonical layout does not always read as what it was written for: lines within quotes move in with the text
around them, `|>` after a `<|` goes on with its argument, a capitalised argument takes the record after it for its own,
and a function without a signature loses the arguments that have no name. `Settled` makes just these changes. Main facts:

* `Settled.text_expression`: where no literal goes over several lines, what is read has the same text;
* `Settled.expression_eq_iff`: then it is what was written just in case nothing of the kind occurs (`Plain.checks`).
-/

import DerwLang.Canonical.Layout
import DerwLang.Grammar.Pattern
import DerwLang.Proofs.Layout.Everywhere
import DerwLang.Proofs.Layout.Indent
import DerwLang.Proofs.Layout.Sound
import DerwLang.Proofs.Layout.Text

namespace DerwLang

open Layout

namespace Settled

/-! ## Literals -/

/-- A text some levels in. -/
def moved (level : Nat) (text : String) : String :=
  String.ofList (deepen^[level] text.toList)

/-- A text between double quotes, read where it stands some levels in. -/
def quoted (level : Nat) (text : String) : String :=
  Grammar.unquote (moved level (Text.quoted text))

/-- A text between backticks, read where it stands some levels in. -/
def backquoted (level : Nat) (text : String) : String :=
  Grammar.unquote (moved level (Text.backquoted text))

/-- One part of a list pattern. -/
def listPart (level : Nat) : ListPart → ListPart
  | .emptyList => .emptyList
  | .string text => .string (quoted level text)
  | .formatString text => .formatString (backquoted level text)
  | .name name => .name name
  | .tag shape => .tag shape

/-- A pattern. -/
def pattern (level : Nat) : Pattern → Pattern
  | .tag shape => .tag shape
  | .string text => .string (quoted level text)
  | .formatString text => .formatString (backquoted level text)
  | .emptyList => .emptyList
  | .list parts => .list (parts.map (listPart level))
  | .otherwise => .otherwise

/-! ## Regrouping -/

/-- `left |> right`, where the argument of a `<|` on the left goes on with `|>`. -/
def joinInto : Expression → Expression → Expression
  | .binary .pipeFrom function argument, right => .binary .pipeFrom function (joinInto argument right)
  | left, right => .binary .pipeInto left right

/-- Two operands with an operator between. -/
def join : BinaryOperator → Expression → Expression → Expression
  | .pipeInto, left, right => joinInto left right
  | operator, left, right => .binary operator left right

/-- The name is that of a tag: it is capitalised and belongs to no other module. -/
def isTag (name : String) : Bool :=
  Text.isCapitalised name && !Text.hasChar name '.'

/-- Arguments, where a tag takes the record after it. -/
def merge : List Expression → List Expression
  | [] => []
  | .value tag :: .record literal :: rest =>
    if isTag tag then .construct tag literal :: merge rest else .value tag :: .record literal :: merge rest
  | item :: rest => item :: merge rest

/-- The parameter has a name. -/
def isNamed : Parameter → Bool
  | .named _ _ => true
  | .anonymous _ _ => false

/-- The parameters of a function; without a signature those without a name are not there. -/
def parameters (declared : List Parameter) (returnType : Ty) : List Parameter :=
  if (declared.map Parameter.type ++ [returnType]).all Ty.isAny then declared.filter isNamed else declared

/-! ## Expressions -/

mutual

/-- An expression. -/
def expression : Nat → Expression → Expression
  | _, .value text => .value text
  | level, .string text => .string (quoted level text)
  | level, .formatString text => .formatString (backquoted level text)
  | level, .list items => .list (expressions level items)
  | level, .range first last => .range (moved level first) (moved level last)
  | level, .record literal => .record (recordLiteral level literal)
  | level, .conditional predicate whenTrue whenFalse =>
    .conditional (expression level predicate) (body (level + 1) whenTrue) (body (level + 1) whenFalse)
  | level, .caseOf predicate cases => .caseOf (expression level predicate) (branches (level + 1) cases)
  | level, .binary operator left right => join operator (expression level left) (expression level right)
  | level, .call name items => .call name (merge (expressions level items))
  | level, .lambda function => .lambda (lambda level function)
  | level, .lambdaCall function items => .lambdaCall (lambda level function) (expressions level items)
  | level, .construct tag literal => .construct tag (recordLiteral level literal)
  | level, .reference path value => .reference path (expression level value)

/-- Several expressions. -/
def expressions : Nat → List Expression → List Expression
  | _, [] => []
  | level, item :: rest => expression level item :: expressions level rest

/-- A record literal. -/
def recordLiteral : Nat → RecordLiteral → RecordLiteral
  | level, ⟨base, fields⟩ => ⟨base, recordFields level fields⟩

/-- A lambda. -/
def lambda : Nat → Lambda → Lambda
  | level, ⟨parameters, result⟩ => ⟨parameters, expression level result⟩

/-- The fields of a record. -/
def recordFields : Nat → List Field → List Field
  | _, [] => []
  | level, ⟨name, value⟩ :: rest => ⟨name, expression level value⟩ :: recordFields level rest

/-- The branches of a case. -/
def branches : Nat → List Branch → List Branch
  | _, [] => []
  | level, ⟨shape, result⟩ :: rest => ⟨pattern level shape, body (level + 1) result⟩ :: branches level rest

/-- A body; local definitions move it in. -/
def body : Nat → Body → Body
  | level, ⟨[], result⟩ => ⟨[], expression level result⟩
  | level, ⟨first :: rest, result⟩ =>
    ⟨block (level + 1) first :: blocks (level + 1) rest, expression (level + 1) result⟩

/-- A declaration. -/
def block : Nat → Block → Block
  | level, .function ⟨name, returnType, declared, result⟩ =>
    .function ⟨name, returnType, parameters declared returnType, body (level + 1) result⟩
  | level, .constant ⟨name, type, value⟩ => .constant ⟨name, type, body (level + 1) value⟩
  | _, .imports modules => .imports modules
  | _, .exports names => .exports names
  | _, .union declared => .union declared
  | _, .alias declared => .alias declared
  | _, .comment text => .comment text
  | _, .multilineComment text => .multilineComment text

/-- Several declarations. -/
def blocks : Nat → List Block → List Block
  | _, [] => []
  | level, declaration :: rest => block level declaration :: blocks level rest

end

section

attribute [local simp] expression expressions recordLiteral lambda recordFields branches body block blocks

theorem expressions_eq (level : Nat) (items : List Expression) : expressions level items = items.map (expression level) := by
  induction items <;> simp_all

theorem recordFields_eq (level : Nat) (fields : List Field) :
    recordFields level fields = fields.map fun field => ⟨field.name, expression level field.value⟩ := by
  induction fields with
  | nil => rfl
  | cons field rest step =>
    cases field
    simp [step]

theorem branches_eq (level : Nat) (cases : List Branch) :
    branches level cases = cases.map fun branch => ⟨pattern level branch.pattern, body (level + 1) branch.body⟩ := by
  induction cases with
  | nil => rfl
  | cons branch rest step =>
    cases branch
    simp [step]

theorem blocks_eq (level : Nat) (declarations : List Block) :
    blocks level declarations = declarations.map (block level) := by
  induction declarations <;> simp_all

end

/-- The declarations of a module stand at no level. -/
def module (module : Module) : Module :=
  { module with body := module.body.map (block 0) }

end Settled

/-! ## Conditions -/

/-- No literal goes over several lines. -/
def OneLine.checks : Checks where
  expression
    | .string text | .formatString text => '\n' ∉ text.toList
    | .range first last => '\n' ∉ first.toList ∧ '\n' ∉ last.toList
    | _ => True
  pattern
    | .string text | .formatString text => '\n' ∉ text.toList
    | .list parts => ∀ text, .string text ∈ parts ∨ .formatString text ∈ parts → '\n' ∉ text.toList
    | _ => True

/-- No tag stands directly before a record. -/
def Plain.Arguments (arguments : List Expression) : Prop :=
  ∀ before tag literal after, arguments = before ++ .value tag :: .record literal :: after → Settled.isTag tag = false

/-- Nothing is read in another way than it was written for: no `<|` stands directly left of a `|>`, no tag stands directly
before a record among arguments, and no function of which no type is known has an argument without a name. -/
def Plain.checks : Checks where
  expression
    | .binary .pipeInto (.binary .pipeFrom _ _) _ => False
    | .call _ arguments => Plain.Arguments arguments
    | .reference _ (.call _ arguments) => Plain.Arguments arguments
    | _ => True
  block
    | .function ⟨_, returnType, parameters, _⟩ =>
      (parameters.map Parameter.type ++ [returnType]).all Ty.isAny = true →
        ∀ parameter ∈ parameters, Settled.isNamed parameter = true
    | _ => True

namespace Settled

/-! ## Literals on one line -/

theorem moved_of_flat {text : String} (flat : '\n' ∉ text.toList) (level : Nat) : moved level text = text := by
  rw [moved, iterate_flat flat, String.ofList_toList]

theorem quoted_of_flat {text : String} (flat : '\n' ∉ text.toList) (level : Nat) : quoted level text = text := by
  rw [quoted, moved_of_flat (by simp [Text.quoted, flat])]
  simp [Grammar.unquote, Text.quoted]

theorem backquoted_of_flat {text : String} (flat : '\n' ∉ text.toList) (level : Nat) : backquoted level text = text := by
  rw [backquoted, moved_of_flat (by simp [Text.backquoted, flat])]
  simp [Grammar.unquote, Text.backquoted]

theorem pattern_of_oneLine {shape : Pattern} (oneLine : OneLine.checks.pattern shape) (level : Nat) :
    pattern level shape = shape := by
  cases shape with
  | string text => exact congrArg _ (quoted_of_flat oneLine level)
  | formatString text => exact congrArg _ (backquoted_of_flat oneLine level)
  | list parts =>
    refine congrArg Pattern.list ?_
    rw [← List.map_id parts, List.map_map]
    refine List.map_congr_left fun part member => ?_
    cases part with
    | string text => exact congrArg _ (quoted_of_flat (oneLine text (.inl member)) level)
    | formatString text => exact congrArg _ (backquoted_of_flat (oneLine text (.inr member)) level)
    | _ => rfl
  | _ => rfl

/-! ## Brackets stay -/

theorem joinInto_root (left right : Expression) :
    (∃ argument, joinInto left right = .binary .pipeInto left argument) ∨
      ∃ function argument, joinInto left right = .binary .pipeFrom function argument := by
  fun_cases joinInto left right with
  | case1 function argument right => exact .inr ⟨function, _, rfl⟩
  | case2 => exact .inl ⟨right, rfl⟩

/-- Regrouping does not change where an operand needs brackets. -/
theorem operandNeedsBrackets_join (parent : BinaryOperator) (side : Associativity) (operator : BinaryOperator)
    (left right : Expression) :
    Canonical.operandNeedsBrackets parent side (join operator left right) =
      Canonical.operandNeedsBrackets parent side (.binary operator left right) := by
  cases operator with
  | pipeInto =>
    rcases joinInto_root left right with ⟨argument, same⟩ | ⟨function, argument, same⟩ <;> rw [join, same] <;> rfl
  | _ => rfl

theorem operandNeedsBrackets_expression (parent : BinaryOperator) (side : Associativity) (level : Nat)
    (item : Expression) :
    Canonical.operandNeedsBrackets parent side (expression level item) =
      Canonical.operandNeedsBrackets parent side item := by
  cases item with
  | binary operator left right =>
    rw [expression, operandNeedsBrackets_join]
    rfl
  | _ => rfl

theorem isEmpty_merge (items : List Expression) : (merge items).isEmpty = items.isEmpty := by
  fun_cases merge items <;> simp

theorem isAtomic_join (operator : BinaryOperator) (left right : Expression) :
    Canonical.isAtomic (join operator left right) = false := by
  cases operator with
  | pipeInto => rcases joinInto_root left right with ⟨_, same⟩ | ⟨_, _, same⟩ <;> simp [join, same, Canonical.isAtomic]
  | _ => rfl

theorem isValue_join (operator : BinaryOperator) (left right : Expression) :
    Canonical.isValue (join operator left right) = false := by
  cases operator with
  | pipeInto => rcases joinInto_root left right with ⟨_, same⟩ | ⟨_, _, same⟩ <;> simp [join, same, Canonical.isValue]
  | _ => rfl

theorem isAtomic_expression (level : Nat) (item : Expression) :
    Canonical.isAtomic (expression level item) = Canonical.isAtomic item := by
  cases item with
  | binary operator left right => rw [expression, isAtomic_join]; rfl
  | call name items => simp [expression, Canonical.isAtomic, isEmpty_merge, expressions_eq]
  | reference path value =>
    cases value with
    | binary operator left right => rw [expression, expression, Canonical.isAtomic, isValue_join]; rfl
    | _ => rfl
  | _ => rfl

/-! ## The text stays -/

/-- What stands right of a `<|` needs brackets just where it does left of a `|>`. -/
theorem operandNeedsBrackets_pipes (item : Expression) :
    Canonical.operandNeedsBrackets .pipeFrom .right item = Canonical.operandNeedsBrackets .pipeInto .left item := by
  cases item with
  | binary operator left right => cases operator <;> rfl
  | _ => rfl

/-- Going on with the argument of a `<|` has the text of going on with the whole. -/
theorem text_joinInto (left right : Expression) :
    Canonical.expression (joinInto left right) = Canonical.expression (.binary .pipeInto left right) := by
  fun_induction joinInto left right with
  | case1 function argument right step =>
    have noBrackets : Canonical.operandNeedsBrackets .pipeFrom .right (joinInto argument right) = false := by
      have same := operandNeedsBrackets_join .pipeFrom .right .pipeInto argument right
      rwa [join] at same
    have outer : Canonical.operandNeedsBrackets .pipeInto .left (.binary .pipeFrom function argument) = false := rfl
    simp only [Canonical.expression, Canonical.operandText, noBrackets, outer, step, operandNeedsBrackets_pipes,
      Bool.false_eq_true, if_false, String.append_assoc]
  | case2 => rfl

theorem text_join (operator : BinaryOperator) (left right : Expression) :
    Canonical.expression (join operator left right) = Canonical.expression (.binary operator left right) := by
  cases operator with
  | pipeInto => exact text_joinInto left right
  | _ => rfl

theorem not_minus_of_isTag {tag : String} (isTag : isTag tag = true) : Text.startsWith tag "-" = false := by
  simp only [Settled.isTag, Text.isCapitalised, Bool.and_eq_true] at isTag
  have capital := isTag.1
  rw [Text.startsWith]
  cases chars : tag.toList with
  | nil => rfl
  | cons c rest =>
    rw [chars] at capital
    have upper : Text.isUppercase c = true := capital
    have notMinus : '-' ≠ c := by
      rintro rfl
      exact absurd upper (by decide)
    simp [List.isPrefixOf, notMinus]

/-- A tag with its record has the text of the tag and the record. -/
theorem text_merge (items : List Expression) :
    String.join ((Canonical.arguments (merge items)).map (" " ++ ·)) =
      String.join ((Canonical.arguments items).map (" " ++ ·)) := by
  fun_induction merge items with
  | case1 => rfl
  | case2 tag literal rest isTag step =>
    have capital : Text.startsWith tag "-" = false := not_minus_of_isTag isTag
    simp only [Canonical.arguments, List.map_cons, String.join_cons, step]
    simp [Canonical.argumentText, Canonical.isAtomic, Canonical.expression, capital, String.append_assoc]
  | case3 tag literal rest isTag step => simp only [Canonical.arguments, List.map_cons, String.join_cons, step]
  | case4 item rest _ step => simp only [Canonical.arguments, List.map_cons, String.join_cons, step]

theorem text_arguments {items : List Expression} {level : Nat}
    (same : ∀ item ∈ items, Canonical.expression (expression level item) = Canonical.expression item) :
    Canonical.arguments (expressions level items) = Canonical.arguments items := by
  rw [expressions_eq, Written.canonical_arguments, Written.canonical_arguments, List.map_map]
  refine List.map_congr_left fun item member => ?_
  simp [Canonical.argumentText, isAtomic_expression, same item member]

theorem text_recordLiteral {base : Option String} {fields : List Field} {level : Nat}
    (same : ∀ field ∈ fields, Canonical.expression (expression level field.value) = Canonical.expression field.value) :
    Canonical.recordLiteral (recordLiteral level ⟨base, fields⟩) = Canonical.recordLiteral ⟨base, fields⟩ := by
  have fieldsSame : Canonical.recordFields (recordFields level fields) = Canonical.recordFields fields := by
    rw [recordFields_eq, Written.canonical_recordFields, Written.canonical_recordFields, List.map_map]
    refine List.map_congr_left fun field member => ?_
    simp [same field member]
  rw [recordLiteral, Canonical.recordLiteral, Canonical.recordLiteral, fieldsSame]

theorem argumentNames_filter (declared : List Parameter) :
    Written.argumentNames (declared.filter isNamed) = Written.argumentNames declared := by
  rw [Written.argumentNames, Written.argumentNames, List.filterMap_filter]
  congr 1
  funext parameter
  cases parameter <;> rfl

/-- Without a signature nothing is written of the types and of the arguments that have no name. -/
theorem text_parameters (name : String) (declared : List Parameter) (returnType : Ty) :
    Canonical.functionSignature name (parameters declared returnType) returnType ++
        Canonical.functionHead name (parameters declared returnType) =
      Canonical.functionSignature name declared returnType ++ Canonical.functionHead name declared := by
  rw [parameters]
  split
  · rename_i unknown
    have still : ((declared.filter isNamed).map Parameter.type ++ [returnType]).all Ty.isAny = true := by
      simp only [List.all_append, List.all_map, Bool.and_eq_true, List.all_eq_true, Function.comp_apply] at unknown ⊢
      exact ⟨fun parameter member => unknown.1 parameter (List.mem_of_mem_filter member), unknown.2⟩
    rw [Canonical.functionSignature, Canonical.functionSignature, if_pos still, if_pos unknown,
      Written.functionHead_eq, Written.functionHead_eq, argumentNames_filter]
  · rfl

theorem text_steps :
    Steps
      (fun e => e.Everywhere Sound.checks → e.Everywhere OneLine.checks → ∀ level,
        Canonical.expression (expression level e) = Canonical.expression e)
      (fun b => b.Everywhere Sound.checks → b.Everywhere OneLine.checks → ∀ level,
        Canonical.body (body level b) = Canonical.body b)
      (fun d => d.Everywhere Sound.checks → d.Everywhere OneLine.checks → ∀ level,
        Canonical.block (block level d) = Canonical.block d) where
  value text _ _ level := rfl
  string text _ oneLine level := by rw [expression, quoted_of_flat oneLine.here]
  formatString text _ oneLine level := by rw [expression, backquoted_of_flat oneLine.here]
  list items step sound oneLine level := by
    rw [everywhere_list] at sound oneLine
    have same : Canonical.expressions (expressions level items) = Canonical.expressions items := by
      rw [expressions_eq, Written.canonical_expressions, Written.canonical_expressions, List.map_map]
      exact List.map_congr_left fun item member => step item member (sound.2 item member) (oneLine.2 item member) level
    cases items with
    | nil => rfl
    | cons item rest =>
      rw [expression, Canonical.expression, ← same, expressions, Canonical.expression]
  range first last _ oneLine level := by
    rw [expression, moved_of_flat oneLine.here.1, moved_of_flat oneLine.here.2]
  record base fields step sound oneLine level := by
    rw [everywhere_record] at sound oneLine
    exact text_recordLiteral fun field member => step field member (sound.2 field member) (oneLine.2 field member) level
  conditional predicate whenTrue whenFalse test yes no sound oneLine level := by
    rw [everywhere_conditional] at sound oneLine
    rw [expression, Canonical.expression, Canonical.expression, test sound.2.1 oneLine.2.1,
      yes sound.2.2.1 oneLine.2.2.1, no sound.2.2.2 oneLine.2.2.2]
  caseOf predicate branches test step sound oneLine level := by
    rw [everywhere_caseOf] at sound oneLine
    have same : Canonical.branches (Settled.branches (level + 1) branches) = Canonical.branches branches := by
      rw [branches_eq, Written.canonical_branches, Written.canonical_branches, List.map_map]
      refine List.map_congr_left fun branch member => ?_
      obtain ⟨soundPattern, soundBody⟩ := sound.2.2 branch member
      obtain ⟨linePattern, lineBody⟩ := oneLine.2.2 branch member
      simp [pattern_of_oneLine linePattern, step branch member soundBody lineBody]
    rw [expression, Canonical.expression, Canonical.expression, test sound.2.1 oneLine.2.1, same]
  binary operator left right one two sound oneLine level := by
    rw [everywhere_binary] at sound oneLine
    rw [expression, text_join, Canonical.expression, Canonical.expression, one sound.2.1 oneLine.2.1,
      two sound.2.2 oneLine.2.2]
    simp [Canonical.operandText, operandNeedsBrackets_expression]
  call name items step sound oneLine level := by
    rw [everywhere_call] at sound oneLine
    rw [expression, Canonical.expression, Canonical.expression, text_merge, text_arguments]
    exact fun item member => step item member (sound.2 item member) (oneLine.2 item member) level
  lambda parameters body step sound oneLine level := by
    rw [everywhere_lambda] at sound oneLine
    rw [expression, lambda, Canonical.expression, Canonical.expression, step sound.2 oneLine.2]
  lambdaCall parameters body items _ _ sound := absurd sound.here id
  construct tag base fields step sound oneLine level := by
    rw [everywhere_construct] at sound oneLine
    rw [expression, Canonical.expression, Canonical.expression, text_recordLiteral]
    exact fun field member => step field member (sound.2 field member) (oneLine.2 field member) level
  reference path value step _ sound oneLine level := by
    cases value with
    | value name => rfl
    | call name items =>
      rw [everywhere_reference_call] at sound oneLine
      rw [expression, expression, Canonical.expression, Canonical.expression, Canonical.expression,
        Canonical.expression, text_merge, text_arguments]
      exact fun item member => step name items rfl item member (sound.2 item member) (oneLine.2 item member) level
    | _ => exact absurd sound.here id
  body locals result declarations step sound oneLine level := by
    rw [everywhere_body] at sound oneLine
    cases locals with
    | nil => rw [body, Canonical.body, Canonical.body, step sound.2.2 oneLine.2.2]
    | cons first rest =>
      have same : Canonical.blocks (blocks (level + 1) (first :: rest)) = Canonical.blocks (first :: rest) := by
        rw [blocks_eq, Written.canonical_blocks, Written.canonical_blocks, List.map_map]
        exact List.map_congr_left fun declaration member =>
          declarations declaration member (sound.2.1 declaration member) (oneLine.2.1 declaration member) (level + 1)
      rw [body, Canonical.body, Canonical.body, step sound.2.2 oneLine.2.2, ← same, blocks]
  function name returnType declared result step sound oneLine level := by
    rw [block, Canonical.block, Canonical.block, step sound.2 oneLine.2, text_parameters]
  constant name type result step sound oneLine level := by
    rw [block, Canonical.block, Canonical.block, step sound.2 oneLine.2]
  imports modules _ _ level := rfl
  exports names _ _ level := rfl
  union declared _ _ level := rfl
  typeAlias declared _ _ level := rfl
  comment text _ _ level := rfl
  multilineComment text _ _ level := rfl

/-! ## When nothing changes -/

theorem map_eq_self {α : Type} {f : α → α} {items : List α} : items.map f = items ↔ ∀ item ∈ items, f item = item := by
  induction items with
  | nil => simp
  | cons item rest step => simp [step]

theorem plainArguments_cons {item : Expression} {rest : List Expression} :
    Plain.Arguments (item :: rest) ↔
      (∀ tag literal after, item = .value tag → rest = .record literal :: after → isTag tag = false) ∧
        Plain.Arguments rest := by
  constructor
  · intro plain
    refine ⟨?_, fun before tag literal after same => plain (item :: before) tag literal after (by rw [same]; rfl)⟩
    rintro tag literal after rfl rfl
    exact plain [] tag literal after rfl
  · rintro ⟨first, later⟩ before tag literal after same
    cases before with
    | nil =>
      obtain ⟨one, two⟩ := List.cons.inj same
      exact first tag literal after one two
    | cons other more => exact later more tag literal after (List.cons.inj same).2

/-- **Merging changes nothing just in case no tag stands directly before a record.** -/
theorem merge_eq_self {items : List Expression} : merge items = items ↔ Plain.Arguments items := by
  fun_induction merge items with
  | case1 => simp [Plain.Arguments]
  | case2 tag literal rest isTag step =>
    refine ⟨fun same => by simp at same, fun plain => ?_⟩
    have notTag := plain [] tag literal rest rfl
    simp [isTag] at notTag
  | case3 tag literal rest notTag step =>
    have unmarked : isTag tag = false := by simpa using notTag
    rw [plainArguments_cons, plainArguments_cons, ← step]
    simp [unmarked]
  | case4 item rest other step =>
    rw [plainArguments_cons, ← step]
    constructor
    · intro same
      refine ⟨?_, (List.cons.inj same).2⟩
      rintro tag literal after rfl rfl
      exact absurd rfl (other tag literal after rfl)
    · rintro ⟨-, same⟩
      rw [same]

theorem merge_eq_or_shorter (items : List Expression) :
    merge items = items ∨ (merge items).length < items.length := by
  fun_induction merge items with
  | case1 => exact .inl rfl
  | case2 tag literal rest _ step =>
    refine .inr ?_
    rcases step with same | shorter
    · simp [same]
    · simp only [List.length_cons]
      omega
  | case3 tag literal rest _ step =>
    rcases step with same | shorter
    · exact .inl (by rw [same])
    · exact .inr (by simpa using shorter)
  | case4 item rest _ step =>
    rcases step with same | shorter
    · exact .inl (by rw [same])
    · exact .inr (by simpa using shorter)

theorem merge_map_eq_self {f : Expression → Expression} {items : List Expression} :
    merge (items.map f) = items ↔ Plain.Arguments items ∧ ∀ item ∈ items, f item = item := by
  rw [← map_eq_self, ← merge_eq_self]
  constructor
  · intro same
    have mapped : items.map f = items := by
      rcases merge_eq_or_shorter (items.map f) with stays | shorter
      · rw [← stays, same]
      · simp [same] at shorter
    rw [mapped] at same
    exact ⟨same, mapped⟩
  · rintro ⟨merged, mapped⟩
    rw [mapped, merged]

theorem recordLiteral_eq_self {level : Nat} {base : Option String} {fields : List Field} :
    recordLiteral level ⟨base, fields⟩ = ⟨base, fields⟩ ↔
      ∀ field ∈ fields, expression level field.value = field.value := by
  rw [recordLiteral, recordFields_eq, RecordLiteral.mk.injEq, map_eq_self]
  simp only [true_and]
  refine forall₂_congr fun field _ => ?_
  cases field
  simp

/-- Regrouping changes nothing just in case no `<|` stands directly left of a `|>`. -/
theorem join_eq_self {operator : BinaryOperator} {left right newLeft newRight : Expression} :
    join operator newLeft newRight = .binary operator left right ↔
      Plain.checks.expression (.binary operator left right) ∧ newLeft = left ∧ newRight = right := by
  cases operator with
  | pipeInto =>
    rw [join]
    fun_cases joinInto newLeft newRight with
    | case1 function argument newRight =>
      simp only [Expression.binary.injEq, reduceCtorEq, false_and, false_iff, not_and]
      rintro plain rfl
      exact absurd plain id
    | case2 newLeft newRight other =>
      simp only [Expression.binary.injEq, true_and]
      refine ⟨fun same => ⟨?_, same⟩, fun same => same.2⟩
      obtain ⟨rfl, rfl⟩ := same
      simp only [Plain.checks]
      split
      · rename_i function argument _ equal
        exact other function argument (Expression.binary.inj equal).2.1
      all_goals trivial
  | _ => simp [join, Plain.checks]

/-- The parameters stay just in case they have names where there is no signature. -/
theorem parameters_eq_self {name : String} {declared : List Parameter} {returnType : Ty} {result : Body} :
    parameters declared returnType = declared ↔
      Plain.checks.block (.function ⟨name, returnType, declared, result⟩) := by
  show _ ↔ ((declared.map Parameter.type ++ [returnType]).all Ty.isAny = true →
    ∀ parameter ∈ declared, isNamed parameter = true)
  rw [parameters]
  split
  · rename_i unknown
    rw [List.filter_eq_self]
    exact ⟨fun named _ => named, fun plain => plain unknown⟩
  · rename_i known
    exact ⟨fun _ unknown => absurd unknown known, fun _ => rfl⟩

theorem plain_steps :
    Steps
      (fun e => e.Everywhere Sound.checks → e.Everywhere OneLine.checks → ∀ level,
        (expression level e = e ↔ e.Everywhere Plain.checks))
      (fun b => b.Everywhere Sound.checks → b.Everywhere OneLine.checks → ∀ level,
        (body level b = b ↔ b.Everywhere Plain.checks))
      (fun d => d.Everywhere Sound.checks → d.Everywhere OneLine.checks → ∀ level,
        (block level d = d ↔ d.Everywhere Plain.checks)) where
  value text _ _ level := by simp [expression, Expression.Everywhere, Expression.Inside, Plain.checks]
  string text _ oneLine level := by
    simp [expression, quoted_of_flat oneLine.here, Expression.Everywhere, Expression.Inside, Plain.checks]
  formatString text _ oneLine level := by
    simp [expression, backquoted_of_flat oneLine.here, Expression.Everywhere, Expression.Inside, Plain.checks]
  list items step sound oneLine level := by
    rw [everywhere_list] at sound oneLine ⊢
    have each := fun item member => step item member (sound.2 item member) (oneLine.2 item member) level
    rw [expression, expressions_eq, Expression.list.injEq, map_eq_self, forall₂_congr each]
    exact (and_iff_right trivial).symm
  range first last _ oneLine level := by
    simp [expression, moved_of_flat oneLine.here.1, moved_of_flat oneLine.here.2, Expression.Everywhere,
      Expression.Inside, Plain.checks]
  record base fields step sound oneLine level := by
    rw [everywhere_record] at sound oneLine ⊢
    have each := fun field member => step field member (sound.2 field member) (oneLine.2 field member) level
    rw [expression, Expression.record.injEq, recordLiteral_eq_self, forall₂_congr each]
    exact (and_iff_right trivial).symm
  conditional predicate whenTrue whenFalse test yes no sound oneLine level := by
    rw [everywhere_conditional] at sound oneLine ⊢
    rw [expression, Expression.conditional.injEq, test sound.2.1 oneLine.2.1, yes sound.2.2.1 oneLine.2.2.1,
      no sound.2.2.2 oneLine.2.2.2]
    exact (and_iff_right trivial).symm
  caseOf predicate branches test step sound oneLine level := by
    rw [everywhere_caseOf] at sound oneLine ⊢
    have each : ∀ branch ∈ branches, (Branch.mk (pattern (level + 1) branch.pattern) (body (level + 1 + 1) branch.body) =
        branch ↔ Plain.checks.pattern branch.pattern ∧ branch.body.Everywhere Plain.checks) := by
      intro branch member
      obtain ⟨soundPattern, soundBody⟩ := sound.2.2 branch member
      obtain ⟨linePattern, lineBody⟩ := oneLine.2.2 branch member
      rw [pattern_of_oneLine linePattern, ← step branch member soundBody lineBody (level + 1 + 1)]
      cases branch
      simp [Plain.checks]
    rw [expression, Expression.caseOf.injEq, branches_eq, map_eq_self, test sound.2.1 oneLine.2.1, forall₂_congr each]
    exact (and_iff_right trivial).symm
  binary operator left right one two sound oneLine level := by
    rw [everywhere_binary] at sound oneLine ⊢
    rw [expression, join_eq_self, one sound.2.1 oneLine.2.1, two sound.2.2 oneLine.2.2]
  call name items step sound oneLine level := by
    rw [everywhere_call] at sound oneLine ⊢
    have each := fun item member => step item member (sound.2 item member) (oneLine.2 item member) level
    rw [expression, expressions_eq, Expression.call.injEq, merge_map_eq_self, forall₂_congr each]
    exact and_iff_right rfl
  lambda parameters body step sound oneLine level := by
    rw [everywhere_lambda] at sound oneLine ⊢
    rw [expression, lambda, Expression.lambda.injEq, Lambda.mk.injEq, step sound.2 oneLine.2]
    exact and_congr_left' (iff_of_true rfl trivial)
  lambdaCall parameters body items _ _ sound := absurd sound.here id
  construct tag base fields step sound oneLine level := by
    rw [everywhere_construct] at sound oneLine ⊢
    have each := fun field member => step field member (sound.2 field member) (oneLine.2 field member) level
    rw [expression, Expression.construct.injEq, recordLiteral_eq_self, forall₂_congr each]
    exact and_congr_left' (iff_of_true rfl trivial)
  reference path value step _ sound oneLine level := by
    cases value with
    | value name => simp [expression, Expression.Everywhere, Expression.Inside, Plain.checks]
    | call name items =>
      rw [everywhere_reference_call] at sound oneLine ⊢
      have each := fun item member =>
        step name items rfl item member (sound.2 item member) (oneLine.2 item member) level
      rw [expression, expression, expressions_eq, Expression.reference.injEq, Expression.call.injEq, merge_map_eq_self,
        forall₂_congr each]
      exact (and_iff_right rfl).trans (and_iff_right rfl)
    | _ => exact absurd sound.here id
  body locals result declarations step sound oneLine level := by
    rw [everywhere_body] at sound oneLine ⊢
    cases locals with
    | nil =>
      rw [body, Body.mk.injEq, step sound.2.2 oneLine.2.2]
      exact ⟨fun plain => ⟨trivial, List.forall_mem_nil _, plain.2⟩, fun plain => ⟨rfl, plain.2.2⟩⟩
    | cons first rest =>
      have each := fun declaration member =>
        declarations declaration member (sound.2.1 declaration member) (oneLine.2.1 declaration member) (level + 1)
      have same : body level ⟨first :: rest, result⟩ =
          ⟨(first :: rest).map (block (level + 1)), expression (level + 1) result⟩ := by
        rw [body, blocks_eq, List.map_cons]
      rw [same, Body.mk.injEq, map_eq_self, step sound.2.2 oneLine.2.2, forall₂_congr each]
      exact (and_iff_right trivial).symm
  function name returnType declared result step sound oneLine level := by
    rw [block, Block.function.injEq, FunctionDefinition.mk.injEq, parameters_eq_self, step sound.2 oneLine.2]
    exact ⟨fun plain => plain.2.2, fun plain => ⟨rfl, rfl, plain⟩⟩
  constant name type result step sound oneLine level := by
    rw [block, Block.constant.injEq, ConstantDefinition.mk.injEq, step sound.2 oneLine.2]
    exact ⟨fun plain => ⟨trivial, plain.2.2⟩, fun plain => ⟨rfl, rfl, plain.2⟩⟩
  imports modules _ _ level := by simp [block, Block.Everywhere, Plain.checks]
  exports names _ _ level := by simp [block, Block.Everywhere, Plain.checks]
  union declared _ _ level := by simp [block, Block.Everywhere, Plain.checks]
  typeAlias declared _ _ level := by simp [block, Block.Everywhere, Plain.checks]
  comment text _ _ level := by simp [block, Block.Everywhere, Plain.checks]
  multilineComment text _ _ level := by simp [block, Block.Everywhere, Plain.checks]

/-- **An expression without literals over several lines is read as it was written just in case it is plain.** -/
theorem expression_eq_self {item : Expression} (sound : item.Everywhere Sound.checks)
    (oneLine : item.Everywhere OneLine.checks) (level : Nat) :
    expression level item = item ↔ item.Everywhere Plain.checks :=
  plain_steps.expression item sound oneLine level

/-- A module without literals over several lines is read as it was written when it is plain. -/
theorem module_eq_self {module : Module} (sound : module.Everywhere Sound.checks)
    (oneLine : module.Everywhere OneLine.checks) (plain : module.Everywhere Plain.checks) :
    Settled.module module = module := by
  have same : module.body.map (block 0) = module.body := map_eq_self.mpr fun declaration member =>
    (plain_steps.block declaration (sound declaration member) (oneLine declaration member) 0).mpr
      (plain declaration member)
  rw [Settled.module, same]

theorem isImport_block (level : Nat) (declaration : Block) :
    Canonical.isImport (block level declaration) = Canonical.isImport declaration := by
  cases declaration with
  | function definition => cases definition; rfl
  | constant definition => cases definition; rfl
  | _ => rfl

/-- **What is read has the text that was written**, where no literal goes over several lines. -/
theorem text_module {module : Module} (sound : module.Everywhere Sound.checks)
    (oneLine : module.Everywhere OneLine.checks) :
    Canonical.module (Settled.module module) = Canonical.module module := by
  have each : ∀ declaration ∈ module.body, Canonical.block (block 0 declaration) = Canonical.block declaration :=
    fun declaration member =>
      text_steps.block declaration (sound declaration member) (oneLine declaration member) 0
  have later : ∀ (rest : List Block) (previous : Block),
      (∀ declaration ∈ rest, Canonical.block (block 0 declaration) = Canonical.block declaration) →
        Canonical.following (block 0 previous) (rest.map (block 0)) = Canonical.following previous rest := by
    intro rest
    induction rest with
    | nil => exact fun _ _ => rfl
    | cons next more step =>
      intro previous same
      rw [List.forall_mem_cons] at same
      rw [List.map_cons, Canonical.following, Canonical.following, same.1, step next same.2, Canonical.separator,
        Canonical.separator, isImport_block, isImport_block]
  rw [Canonical.module, Canonical.module, Settled.module]
  cases declarations : module.body with
  | nil => rfl
  | cons first rest =>
    rw [declarations, List.forall_mem_cons] at each
    rw [List.map_cons, Canonical.declarations, Canonical.declarations, each.1, later rest first each.2]

end Settled

end DerwLang
