/-
**What is printed is read back.**

Every module and every expression that was read from some source is sound, and the canonical text of what is sound reads
as the settled syntax. So where no literal goes over several lines:

* `parse_canonical`: the text of a module reads as the module when nothing in it is read in another way than written;
* `parseExpression_canonical`: the text of an expression reads as the expression just in that case;
* `formatSource_formatSource`: formatting what was formatted changes nothing, in that case or not.
-/

import DerwLang.Canonical.Format
import DerwLang.Proofs.Accepted.Declaration
import DerwLang.Proofs.Reading.Module

namespace DerwLang

/-! ## Modules -/

/-- **The text of a module is read back**, every declaration in its place. -/
theorem parse_canonical {source : String} (oneLine : (parse source).Everywhere OneLine.checks)
    (plain : (parse source).Everywhere Plain.checks) :
    (parse (Canonical.module (parse source))).errors = [] ∧
      (parse (Canonical.module (parse source))).body = (parse source).body := by
  have sound := sound_parse source
  have read : parse (Canonical.module (parse source)) = ⟨"Main", (parse source).body.map (Settled.block 0), []⟩ :=
    Written.parse_text sound (fun _ member => absurd member List.not_mem_nil) (List.append_nil _).symm
  have settled := congrArg Module.body (Settled.module_eq_self sound oneLine plain)
  rw [read]
  exact ⟨rfl, settled⟩

/-- A comment, and a function with a local definition, a case and a call. -/
def nestedModule : Module :=
  ⟨"Main",
    [.comment "-- nested",
      .function ⟨"f", .any, [.named "x" .any],
        ⟨[.constant ⟨"y", .any, ⟨[], .binary .pipeInto (.value "x") (.value "g")⟩⟩],
          .caseOf (.value "y")
            [⟨.tag ⟨"A", ["a"]⟩, ⟨[], .value "a"⟩⟩, ⟨.otherwise, ⟨[], .call "h" [.string "b"]⟩⟩]⟩⟩],
    []⟩

/-- The text of the comment and the function. -/
def nestedText : String :=
  "-- nested\n\nf x =\n    let\n        y =\n            x |> g\n    in\n        case y of\n            " ++
    "A \x7b a \x7d ->\n                a\n\n            default ->\n                h \"b\""

theorem text_nestedModule : Canonical.module nestedModule = nestedText := by
  decide +kernel

theorem sound_nestedModule : nestedModule.Everywhere Sound.checks := by
  have names : ∀ name ∈ ["f", "x", "y", "g", "a", "h", "A", "any"], Sound.Name name := by decide
  have plain : ∀ name ∈ ["x", "y", "g", "a"], Sound.Plain name := by decide
  have comment : IsWord .comment "-- nested".toList := by decide
  have quoted : Sound.Quoted "b" := by decide
  simp only [List.forall_mem_cons] at names plain
  obtain ⟨f, x, y, g, a, h, tag, any, -⟩ := names
  obtain ⟨plainX, plainY, plainG, plainA, -⟩ := plain
  have unknown : Sound.Annotation .any := ⟨any, fun _ => rfl, trivial⟩
  have parameters : Sound.Parameters [.named "x" .any] :=
    ⟨["x"], [.any], by simp, by simp, List.forall_mem_singleton.mpr x, List.forall_mem_singleton.mpr unknown, rfl⟩
  simp only [nestedModule, Module.Everywhere, List.forall_mem_cons]
  refine ⟨comment, ⟨⟨f, unknown, parameters⟩, ?_⟩, by simp⟩
  simp only [Body.Everywhere, Sound.checks, List.mem_cons, List.not_mem_nil, or_false, forall_eq, Block.EverywhereEach,
    Block.Everywhere, Sound.Block, IsEmpty.forall_iff, implies_true, Sound.Expression, Expression.Inside, and_true, true_and,
    ne_eq, reduceCtorEq, not_false_eq_true, Branch.EverywhereEach, Sound.Pattern, Sound.TagPattern, List.cons_ne_self,
    Expression.EverywhereEach]
  exact ⟨rfl, ⟨⟨y, unknown⟩, .inl ⟨x, plainX⟩, .inl ⟨g, plainG⟩⟩, .inl ⟨y, plainY⟩,
    ⟨⟨tag, by decide, a⟩, .inl ⟨a, plainA⟩⟩, ⟨h, by decide⟩, quoted⟩

theorem oneLine_nestedModule : nestedModule.Everywhere OneLine.checks := by
  simp [nestedModule, Module.Everywhere, Block.Everywhere, Block.EverywhereEach, Body.Everywhere, Branch.EverywhereEach,
    Expression.EverywhereEach, Expression.Inside, OneLine.checks]

theorem plain_nestedModule : nestedModule.Everywhere Plain.checks := by
  simp only [Module.Everywhere, nestedModule, List.mem_cons, List.not_mem_nil, or_false, Plain.checks, List.all_append,
    List.all_map, List.all_cons, List.all_nil, Bool.and_true, Bool.and_eq_true, List.all_eq_true, Function.comp_apply,
    Settled.isNamed, and_imp, forall_eq_or_imp, Block.Everywhere, forall_eq, implies_true, Body.Everywhere,
    Block.EverywhereEach, Expression.Inside, and_self, Branch.EverywhereEach, Expression.EverywhereEach, and_true, true_and]
  exact Settled.merge_eq_self.mp rfl

theorem parse_nestedText : parse nestedText = nestedModule := by
  have same : nestedText.toList = (Canonical.module nestedModule).toList ++ [] := by
    rw [text_nestedModule, List.append_nil]
  rw [Written.parse_text sound_nestedModule (fun _ member => absurd member List.not_mem_nil) same]
  exact Settled.module_eq_self sound_nestedModule oneLine_nestedModule plain_nestedModule

/-- A comment, a local definition and a case come back. -/
theorem parse_canonical_nested :
    (parse nestedText).Everywhere OneLine.checks ∧ (parse nestedText).Everywhere Plain.checks ∧
      (parse (Canonical.module (parse nestedText))).errors = [] ∧
      (parse (Canonical.module (parse nestedText))).body = (parse nestedText).body := by
  have oneLine : (parse nestedText).Everywhere OneLine.checks := parse_nestedText ▸ oneLine_nestedModule
  have plain : (parse nestedText).Everywhere Plain.checks := parse_nestedText ▸ plain_nestedModule
  exact ⟨oneLine, plain, parse_canonical oneLine plain⟩

/-! ## Expressions -/

/-- **The text of an expression is read back** just in case nothing in it is read in another way than written. -/
theorem parseExpression_canonical {source : String} {item : Expression} (read : parseExpression source = .ok item)
    (oneLine : item.Everywhere OneLine.checks) :
    parseExpression (Canonical.expression item) = .ok item ↔ item.Everywhere Plain.checks := by
  have sound := sound_parseExpression read
  rw [Written.parseExpression_text sound, ← Settled.expression_eq_self sound oneLine 0]
  exact ⟨Except.ok.inj, congrArg Except.ok⟩

/-- An expression with brackets on the right of a minus and on the left of `|>`. -/
def bracketed : Expression :=
  .binary .pipeInto (.binary .subtract (.value "a") (.binary .subtract (.value "b") (.value "c"))) (.value "g")

theorem text_bracketed : Canonical.expression bracketed = "(a - (b - c)) |> g" := by
  decide

theorem sound_bracketed : bracketed.Everywhere Sound.checks := by
  have names : ∀ name ∈ ["a", "b", "c", "g"], Sound.Name name := by decide
  have plain : ∀ name ∈ ["a", "b", "c", "g"], Sound.Plain name := by decide
  simp only [List.forall_mem_cons] at names plain
  obtain ⟨a, b, c, g, -⟩ := names
  obtain ⟨plainA, plainB, plainC, plainG, -⟩ := plain
  exact ⟨trivial, ⟨trivial, ⟨.inl ⟨a, plainA⟩, trivial⟩, trivial, ⟨.inl ⟨b, plainB⟩, trivial⟩, .inl ⟨c, plainC⟩, trivial⟩,
    .inl ⟨g, plainG⟩, trivial⟩

/-- The brackets are printed and come back. -/
theorem parseExpression_canonical_bracketed :
    parseExpression "(a - (b - c)) |> g" = .ok bracketed ∧ bracketed.Everywhere OneLine.checks ∧
      (parseExpression (Canonical.expression bracketed) = .ok bracketed ↔ bracketed.Everywhere Plain.checks) := by
  have read : parseExpression "(a - (b - c)) |> g" = .ok bracketed := by
    rw [← text_bracketed, Written.parseExpression_text sound_bracketed]
    rfl
  have oneLine : bracketed.Everywhere OneLine.checks := by
    simp [bracketed, Expression.Everywhere, Expression.Inside, OneLine.checks]
  exact ⟨read, oneLine, parseExpression_canonical read oneLine⟩

/-! ## Formatting -/

/-- The text ends with a line feed unless it is empty. -/
def lineEnded (text : String) : String :=
  if text.isEmpty then "" else text ++ "\n"

theorem toList_lineEnded (text : String) :
    ∃ feeds : List Char, (∀ c ∈ feeds, c = '\n') ∧ (lineEnded text).toList = text.toList ++ feeds := by
  rw [lineEnded]
  split
  · rename_i empty
    obtain rfl := String.isEmpty_iff.mp empty
    exact ⟨[], fun _ member => absurd member List.not_mem_nil, rfl⟩
  · exact ⟨['\n'], fun _ => List.mem_singleton.mp, String.toList_append⟩

theorem formatSource_eq_ok {source text : String} :
    formatSource source = .ok text ↔
      (parse source).errors = [] ∧ text = lineEnded (Canonical.module (parse source)) := by
  rw [formatSource]
  cases errors : (parse source).errors with
  | nil => exact ⟨fun formatted => ⟨rfl, (Except.ok.inj formatted).symm⟩, fun same => congrArg Except.ok same.2.symm⟩
  | cons first rest => simp

/-- The formatted text of what is sound is formatted as the settled syntax. -/
theorem formatSource_lineEnded {module : Module} (sound : module.Everywhere Sound.checks) :
    formatSource (lineEnded (Canonical.module module)) = .ok (lineEnded (Canonical.module (Settled.module module))) := by
  obtain ⟨feeds, areFeeds, chars⟩ := toList_lineEnded (Canonical.module module)
  have read := Written.parse_text sound areFeeds chars
  refine formatSource_eq_ok.mpr ⟨by rw [read], ?_⟩
  rw [read]
  rfl

/-- **Formatting what was formatted changes nothing** where no literal goes over several lines. -/
theorem formatSource_formatSource {source text : String} (formatted : formatSource source = .ok text)
    (oneLine : (parse source).Everywhere OneLine.checks) : formatSource text = .ok text := by
  obtain ⟨-, rfl⟩ := formatSource_eq_ok.mp formatted
  have sound := sound_parse source
  rw [formatSource_lineEnded sound, Settled.text_module sound oneLine]

/-- A comment, a local definition and a case are formatted once for all. -/
theorem formatSource_formatSource_nested :
    formatSource nestedText = .ok (nestedText ++ "\n") ∧ (parse nestedText).Everywhere OneLine.checks ∧
      formatSource (nestedText ++ "\n") = .ok (nestedText ++ "\n") := by
  have formatted : formatSource nestedText = .ok (nestedText ++ "\n") := by
    refine formatSource_eq_ok.mpr ?_
    rw [parse_nestedText, text_nestedModule]
    exact ⟨rfl, by decide +kernel⟩
  have oneLine : (parse nestedText).Everywhere OneLine.checks := parse_nestedText ▸ oneLine_nestedModule
  exact ⟨formatted, oneLine, formatSource_formatSource formatted oneLine⟩

/-- A constant that is a format string of two lines. -/
def twoLines (text : String) : Module :=
  ⟨"Main", [.constant ⟨"x", .any, ⟨[], .formatString text⟩⟩], []⟩

theorem sound_twoLines {text : String} (backquoted : Sound.Backquoted text) : (twoLines text).Everywhere Sound.checks := by
  have x : Sound.Name "x" := by decide
  have any : Sound.Name "any" := by decide
  exact List.forall_mem_singleton.mpr ⟨⟨x, any, fun _ => rfl, trivial⟩, fun _ member => absurd member List.not_mem_nil,
    trivial, backquoted, trivial⟩

/-- **A literal of two lines moves in with each formatting**, so that what was formatted is formatted anew. -/
theorem formatSource_moves :
    formatSource "x =\n    \x60a\n    b\x60\n" = .ok "x =\n    \x60a\n        b\x60\n" ∧
      formatSource "x =\n    \x60a\n        b\x60\n" ≠ .ok "x =\n    \x60a\n        b\x60\n" := by
  have once : Sound.Backquoted "a\nb" := by decide
  have twice : Sound.Backquoted "a\n    b" := by decide
  have first := formatSource_lineEnded (sound_twoLines once)
  have second := formatSource_lineEnded (sound_twoLines twice)
  have text : lineEnded (Canonical.module (twoLines "a\nb")) = "x =\n    \x60a\n    b\x60\n" := by decide
  have moved : lineEnded (Canonical.module (twoLines "a\n    b")) = "x =\n    \x60a\n        b\x60\n" := by
    decide
  have read : Settled.module (twoLines "a\nb") = twoLines "a\n    b" := by rfl
  rw [text, read, moved] at first
  refine ⟨first, ?_⟩
  rw [← moved, second, Ne, Except.ok.injEq]
  decide

end DerwLang
