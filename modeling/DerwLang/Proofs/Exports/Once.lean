/-
**What a module exports.**

A module exports the names that its `exposing` blocks list, and a test module its tests as well (`Module.exported`). The targets put
the two together without a look at what is in both:

* `exportLines_eq`: the script of a module has one line `export \x7b n \x7d;` for each time that `n` is exported, and no other;
* `headerNames_module`: the header of an Elm module lists the exported names, each as often as it is exported;
* `exported_once_iff`: so each name is exported once, in all of them, just in case no test is listed;
* `listed_test_twice`: a test that is listed is exported twice.

Quoted texts on several lines are left out (`Short.checks`), as a line of such a text may read like an export.
-/

import DerwLang.Elm.Layout
import DerwLang.Proofs.Accepted.Declaration
import DerwLang.Proofs.Exports.Script
import Mathlib.Data.List.Nodup

namespace DerwLang

/-! ## Texts that are cut -/

section Cutting

variable {test : Char → Bool} {separator : Char}

/-- **A text is cut at a separator into the parts of what stands on its two sides.** -/
theorem splitWhere_between {c : Char} (cut : test c = true) (front back : List Char) :
    Text.splitWhere test (front ++ c :: back) = Text.splitWhere test front ++ Text.splitWhere test back := by
  induction front with
  | nil => simp [Text.splitWhere, cut]
  | cons d rest step =>
    rw [List.cons_append, Text.splitWhere, step, Text.splitWhere]
    split
    · rfl
    · obtain ⟨part, parts, same⟩ := List.exists_cons_of_ne_nil (Text.splitWhere_ne_nil test rest)
      rw [same]
      rfl

theorem splitAt_between (separator : Char) (front back : String) :
    Text.splitAt separator (front ++ String.singleton separator ++ back) =
      Text.splitAt separator front ++ Text.splitAt separator back := by
  have chars : (front ++ String.singleton separator ++ back).toList = front.toList ++ separator :: back.toList := by simp
  rw [Text.splitAt, chars, splitWhere_between (by simp), List.map_append]
  rfl

/-- Nothing is cut where there is no separator. -/
theorem splitAt_flat {text : String} (flat : separator ∉ text.toList) : Text.splitAt separator text = [text] := by
  have uncut : ∀ c ∈ text.toList, (c == separator) = false :=
    fun c member => beq_false_of_ne fun same => flat (same ▸ member)
  rw [Text.splitAt, Written.splitWhere_none uncut, List.map_singleton, String.ofList_toList]

/-- Only the first part may start with a character that never stands behind a separator. -/
theorem head_of_tail_splitWhere {cut first : Char} {own : List Char}
    (chain : own.IsChain fun c d => c = cut → d ≠ first) :
    ∀ part ∈ (Text.splitWhere (· == cut) own).tail, part.head? ≠ some first := by
  induction own with
  | nil => simp [Text.splitWhere]
  | cons c rest step =>
    obtain ⟨apart, later⟩ := List.isChain_cons.mp chain
    rw [Text.splitWhere]
    split
    · rename_i isCut
      cases rest with
      | nil => simp [Text.splitWhere]
      | cons d more =>
        obtain ⟨part, parts, same, start⟩ := Written.splitWhere_first (· == cut) d more
        rw [same] at step ⊢
        refine List.forall_mem_cons.mpr ⟨?_, step later⟩
        rcases start with rfl | ⟨others, rfl⟩
        · simp
        · exact fun is => apart d rfl (eq_of_beq isCut) (Option.some.inj is)
    · obtain ⟨part, parts, same⟩ := List.exists_cons_of_ne_nil (Text.splitWhere_ne_nil (· == cut) rest)
      rw [same] at step ⊢
      exact step later

end Cutting

/-- The lines of a text, cut at its line feeds. -/
def cutLines (text : String) : List String :=
  Text.splitAt '\n' text

/-- How often the line is among those of the texts. -/
def countLine (line : String) (texts : List String) : Nat :=
  (texts.flatMap cutLines).count line

theorem countLine_cons (line text : String) (texts : List String) :
    countLine line (text :: texts) = (cutLines text).count line + countLine line texts := by
  rw [countLine, List.flatMap_cons, List.count_append, countLine]

theorem countLine_append (line : String) (front back : List String) :
    countLine line (front ++ back) = countLine line front + countLine line back := by
  rw [countLine, List.flatMap_append, List.count_append, countLine, countLine]

/-- **Joining texts by blank lines makes no further lines** but blank ones, and empty texts have none to leave out. -/
theorem count_joined {line : String} (some_ : line ≠ "") (texts : List String) :
    (cutLines ("\n\n".intercalate (texts.filter fun text => !text.isEmpty))).count line = countLine line texts := by
  have empty : (cutLines "").count line = 0 := List.count_eq_zero.mpr fun member => some_ (List.mem_singleton.mp member)
  have joined : ∀ texts : List String, (cutLines ("\n\n".intercalate texts)).count line = countLine line texts := by
    intro texts
    induction texts with
    | nil => exact empty
    | cons text rest step =>
      cases rest with
      | nil => simp [countLine]
      | cons next more =>
        have apart : "\n\n".intercalate (text :: next :: more) =
            text ++ String.singleton '\n' ++ ("" ++ String.singleton '\n' ++ "\n\n".intercalate (next :: more)) := by
          rw [← String.toList_inj]
          simp [String.toList_intercalate]
        rw [apart, cutLines, splitAt_between, splitAt_between, List.count_append, List.count_append, countLine_cons, ← step]
        exact congrArg _ ((congrArg (· + _) empty).trans (Nat.zero_add _))
  rw [joined]
  induction texts with
  | nil => rfl
  | cons text rest step =>
    rw [List.filter_cons, countLine_cons, ← step]
    split
    · exact countLine_cons _ _ _
    · rename_i isEmpty
      have none_ : text = "" := by simpa using isEmpty
      rw [none_, empty, Nat.zero_add]

/-! ## Exports -/

/-- The names that a declaration lists to export. -/
def Block.exposed : Block → List String
  | .exports names => names
  | _ => []

namespace Module

/-- The names that the exposing blocks of a module list. -/
def exposed (module : Module) : List String :=
  module.body.flatMap Block.exposed

/-- The tests that a test module exports, none in other modules. -/
def tests (module : Module) : List String :=
  module.testExports?.getD []

/-- The names that a module exports: those that are listed, and after them its tests. -/
def exported (module : Module) : List String :=
  module.exposed ++ module.tests

variable {module : Module} {name : String}

theorem tests_eq (module : Module) : module.tests =
    if Text.endsWith module.name "_test" then module.definedNames.filter fun name => Text.startsWith name "test" else [] := by
  rw [tests, testExports?]
  split
  · split <;> simp_all
  · rfl

theorem mem_tests : name ∈ module.tests ↔
    Text.endsWith module.name "_test" = true ∧ name ∈ module.definedNames ∧ Text.startsWith name "test" = true := by
  rw [tests_eq]
  split
  · rename_i isTest
    simp [isTest]
  · rename_i noTest
    simp [noTest]

theorem nodup_tests (defined : module.definedNames.Nodup) : module.tests.Nodup := by
  rw [tests_eq]
  split
  · exact defined.filter _
  · exact .nil

/-- Each name is exported once just in case nothing that is listed is a test. -/
theorem nodup_exported (defined : module.definedNames.Nodup) (exposed : module.exposed.Nodup) :
    module.exported.Nodup ↔ ∀ name ∈ module.exposed, name ∉ module.tests := by
  rw [exported, List.nodup_append]
  refine ⟨fun ⟨_, _, apart⟩ name listed test => apart name listed name test rfl, fun apart => ⟨exposed, nodup_tests defined, ?_⟩⟩
  rintro name listed other test rfl
  exact apart name listed test

/-- What is exported is named by a name. -/
theorem name_of_exported (flat : module.Everywhere flatTexts) : ∀ name ∈ module.exported, Sound.Name name := by
  refine List.forall_mem_append.mpr ⟨fun name listed => ?_, fun name test => ?_⟩
  · obtain ⟨block, among, inside⟩ := List.mem_flatMap.mp listed
    have sound := (flat block among).here.1
    cases block with
    | exports names => exact sound name inside
    | _ => cases inside
  · obtain ⟨block, among, own⟩ := List.mem_filterMap.mp (mem_tests.mp test).2.1
    have sound := (flat block among).here.1
    cases block with
    | function definition | constant definition =>
      cases definition
      obtain rfl := Option.some.inj own
      exact sound.1
    | _ => cases own

end Module

namespace Ecma

/-- The line that exports a name. -/
def exportLine (name : String) : String :=
  "export " ++ Text.braced name ++ ";"

/-- How often the script of a module has the line that exports a name. -/
def exportLines (dialect : Dialect) (module : Module) (name : String) : Nat :=
  (cutLines (Ecma.module dialect module)).count (exportLine name)

theorem exportLine_inj {name other : String} : exportLine name = exportLine other ↔ name = other := by
  refine ⟨fun same => ?_, congrArg exportLine⟩
  simpa [exportLine, Text.braced, ← String.toList_inj] using same

theorem exportLine_ne_empty (name : String) : exportLine name ≠ "" := by
  intro same
  have chars := congrArg String.toList same
  simp [exportLine, Text.braced] at chars

/-- The lines of an export statement are those of its names. -/
theorem count_exportText {names : List String} (flat : ∀ name ∈ names, '\n' ∉ name.toList) (name : String) :
    (cutLines (exportText names)).count (exportLine name) = names.count name := by
  have single : ∀ first : String, '\n' ∉ first.toList → cutLines (exportLine first) = [exportLine first] := by
    intro first isFlat
    refine splitAt_flat ?_
    simp [exportLine, Text.braced, isFlat]
  have counts : ∀ (first : String) (rest : List String),
      (exportLine first :: rest).count (exportLine name) = rest.count (exportLine name) + if first = name then 1 else 0 := by
    intro first rest
    rw [List.count_cons]
    simp [exportLine_inj]
  induction names with
  | nil =>
    exact List.count_eq_zero.mpr fun member => exportLine_ne_empty name (List.mem_singleton.mp member)
  | cons first rest step =>
    obtain ⟨isFlat, others⟩ := List.forall_mem_cons.mp flat
    have counted : (first :: rest).count name = rest.count name + if first = name then 1 else 0 := by
      rw [List.count_cons]
      simp
    cases rest with
    | nil =>
      rw [show exportText [first] = exportLine first from by simp [exportText, exportLine, Text.unlines], single first isFlat,
        counts, counted]
      rfl
    | cons next more =>
      have apart : exportText (first :: next :: more) = exportLine first ++ String.singleton '\n' ++ exportText (next :: more) := by
        rw [← String.toList_inj]
        simp [exportText, exportLine, Text.unlines, String.toList_intercalate]
      rw [apart, cutLines, splitAt_between, ← cutLines, ← cutLines, single first isFlat, List.singleton_append, counts, step others,
        counted]

theorem start_ne_of_margin {text : String} (margin : Margin text) :
    ∀ line ∈ Text.splitWhere (· == '\n') text.toList, line.head? ≠ some 'e' := by
  have parts := head_of_tail_splitWhere margin
  rwa [Text.splitWhere, if_pos (by decide)] at parts

/-- No line of a text at the margin exports a name. -/
theorem count_margin {text : String} (margin : Margin text) (name : String) : (cutLines text).count (exportLine name) = 0 := by
  refine List.count_eq_zero.mpr fun member => ?_
  obtain ⟨line, among, same⟩ := List.mem_map.mp member
  have start : line.head? = some 'e' := by
    have chars := congrArg String.toList same
    rw [String.toList_ofList] at chars
    rw [chars]
    simp [exportLine, Text.braced]
  exact start_ne_of_margin margin line among start

/-! ## Scripts -/

/-- **The declarations of blocks export a name in as many lines as the blocks list it.** -/
theorem countLine_declarations (dialect : Dialect) {blocks : List Block} (flat : ∀ block ∈ blocks, block.Everywhere flatTexts)
    (name : String) :
    Gives (declarations dialect blocks) fun lowered =>
      countLine (exportLine name) (lowered.map (Declaration.text dialect)) = (blocks.flatMap Block.exposed).count name := by
  induction blocks with
  | nil =>
    rw [declarations]
    exact .pure rfl
  | cons block rest step =>
    obtain ⟨first, others⟩ := List.forall_mem_cons.mp flat
    have own : Gives (lowerBlock dialect block) fun declaration =>
        (cutLines (declaration.text dialect)).count (exportLine name) = block.exposed.count name := by
      cases exports : block.isExport with
      | true =>
        obtain ⟨names, rfl⟩ : ∃ names, block = .exports names := by cases block <;> simp_all [Block.isExport]
        rw [lowerBlock]
        refine .pure ?_
        rw [Declaration.text]
        exact count_exportText (fun name member => unbroken_of_name (first.here.1 name member)) name
      | false =>
        have nothing : block.exposed = [] := by cases block <;> simp_all [Block.isExport, Block.exposed]
        intro names given
        obtain ⟨margin, still⟩ := (closed_lines dialect).lowerBlock block first names given
        rw [nothing, List.count_nil]
        exact ⟨count_margin (margin exports) name, still⟩
    rw [declarations]
    refine own.bind fun declaration counted => (step others).bind fun lowered later => .pure ?_
    rw [List.map_cons, countLine_cons, counted, later, List.flatMap_cons, List.count_append]

/-- Writing pipes as application keeps what is listed. -/
theorem exposed_directEach (blocks : List Block) :
    (Block.directEach blocks).flatMap Block.exposed = blocks.flatMap Block.exposed := by
  induction blocks with
  | nil => rw [Block.directEach]
  | cons block rest step =>
    have same : block.direct.exposed = block.exposed := by
      cases block with
      | function definition | constant definition =>
        cases definition
        rw [Block.direct]
        rfl
      | _ => rw [Block.direct]
    rw [Block.directEach, List.flatMap_cons, List.flatMap_cons, step, same]

/-- **A script exports a name in as many lines as the module exports it.** -/
theorem exportLines_eq (dialect : Dialect) {source : Module} (flat : source.Everywhere flatTexts) (name : String) :
    exportLines dialect source name = source.exported.count name := by
  have given : TempNames.Given {} := by simp [TempNames.Given, TempNames.taken]
  have declared := (countLine_declarations dialect (everywhere_directBlocks shallow_flatTexts source.body flat) name {} given).1
  rw [exposed_directEach] at declared
  have tests : countLine (exportLine name) ((source.testExports?.map fun names => Declaration.verbatim (exportText names)).toList.map
      (Declaration.text dialect)) = source.tests.count name := by
    rw [Module.tests]
    cases found : source.testExports? with
    | none => rfl
    | some names =>
      have areNames : ∀ name ∈ names, Unbroken name := fun name member =>
        unbroken_of_name (Module.name_of_exported flat name (List.mem_append_right _ (by rwa [Module.tests, found])))
      simpa [countLine, Declaration.text] using count_exportText areNames name
  rw [exportLines, module, count_joined (exportLine_ne_empty name), moduleDeclarations, List.map_append, countLine_append, tests,
    Module.exported, List.count_append, Nat.add_comm]
  exact congrArg (· + _) declared

end Ecma

/-! ## Headers of Elm modules -/

namespace Elm

/-- The names that the header of a module lists: the parts between its brackets, without the blanks around them. -/
def headerNames (name text : String) : List String :=
  let behind := text.toList.drop ("module " ++ name ++ " exposing (").length
  (Text.splitAt ',' (String.ofList (behind.takeWhile (· != ')')))).map Text.trim

theorem exposedNames_eq (source : Module) : exposedNames source = source.exported := by
  rw [exposedNames, Module.exported, Module.exposed, Module.tests]
  congr 1

theorem trim_of_visible {text : String} (visible : ∀ c ∈ text.toList, Text.isBlank c = false) : Text.trim text = text := by
  have kept : ∀ own : List Char, (∀ c ∈ own, Text.isBlank c = false) → own.dropWhile Text.isBlank = own := by
    intro own each
    cases own with
    | nil => rfl
    | cons c rest => rw [List.dropWhile_cons_of_neg (by simp [each c List.mem_cons_self])]
  rw [Text.trim, Text.trimWhere, kept _ visible, kept _ (by simpa using visible), List.reverse_reverse, String.ofList_toList]

theorem trim_space (text : String) : Text.trim (" " ++ text) = Text.trim text := by
  rw [Text.trim, Text.trim, Text.trimWhere, Text.trimWhere, String.toList_append]
  rfl

/-- A list is cut at its commas, with a space in front of all parts but the first. -/
theorem splitAt_commaSeparated {first : String} {rest : List String} (flat : ∀ text ∈ first :: rest, ',' ∉ text.toList) :
    Text.splitAt ',' (Text.commaSeparated (first :: rest)) = first :: rest.map (" " ++ ·) := by
  induction rest generalizing first with
  | nil =>
    rw [Text.commaSeparated, String.intercalate_singleton, splitAt_flat (flat first (List.mem_singleton_self _))]
    rfl
  | cons next rest step =>
    obtain ⟨own, others⟩ := List.forall_mem_cons.mp flat
    obtain ⟨second, later⟩ := List.forall_mem_cons.mp others
    have apart : Text.commaSeparated (first :: next :: rest) =
        first ++ String.singleton ',' ++ Text.commaSeparated ((" " ++ next) :: rest) := by
      rw [← String.toList_inj]
      simp [Text.commaSeparated, String.toList_intercalate, Layout.intercalate_cons]
    have spaced : ∀ text ∈ (" " ++ next) :: rest, ',' ∉ text.toList :=
      List.forall_mem_cons.mpr ⟨by simp [second], later⟩
    rw [apart, splitAt_between, splitAt_flat own, step spaced]
    rfl

/-- Names with commas between them are read back. -/
theorem trim_splitAt_commaSeparated {names : List String} (some_ : names ≠ []) (each : ∀ name ∈ names, Sound.Name name) :
    (Text.splitAt ',' (Text.commaSeparated names)).map Text.trim = names := by
  have flat : ∀ name ∈ names, ',' ∉ name.toList := fun name member comma =>
    absurd (List.all_eq_true.mp (each name member).isNameChar _ comma) (by decide)
  have trimmed : ∀ name ∈ names, Text.trim name = name := fun name member =>
    trim_of_visible fun c among => not_blank_of_isNameChar (List.all_eq_true.mp (each name member).isNameChar c among)
  obtain ⟨first, rest, rfl⟩ := List.exists_cons_of_ne_nil some_
  obtain ⟨own, others⟩ := List.forall_mem_cons.mp trimmed
  rw [splitAt_commaSeparated flat, List.map_cons, own, List.map_map]
  congr 1
  exact (List.map_congr_left fun name member => (trim_space name).trans (others name member)).trans (List.map_id rest)

/-- **The header of an Elm module lists the names that the module exports**, or two dots if there are none. -/
theorem headerNames_module {source : Module} (names : ∀ name ∈ source.exported, Sound.Name name) :
    headerNames source.name (module source) = if source.exported.isEmpty then [".."] else source.exported := by
  have listed : ∀ listed : String, ')' ∉ listed.toList → (if source.exported.isEmpty then ".." else
      Text.commaSeparated source.exported) = listed →
      headerNames source.name (module source) = (Text.splitAt ',' listed).map Text.trim := by
    intro listed closed same
    have start : ∃ rest, (module source).toList =
        ("module " ++ source.name ++ " exposing (").toList ++ (listed.toList ++ ')' :: rest) := by
      have headed : ("module " ++ source.name ++ " exposing " ++ Text.parenthesised listed).toList =
          ("module " ++ source.name ++ " exposing (").toList ++ (listed.toList ++ [')']) := by
        simp [Text.parenthesised]
      rw [module, String.toList_intercalate, List.map_cons, Layout.intercalate_cons, head, exposedNames_eq, same, headed,
        List.append_assoc, List.append_assoc]
      exact ⟨_, rfl⟩
    obtain ⟨rest, start⟩ := start
    rw [headerNames, start, ← String.length_toList, List.drop_left, List.takeWhile_append_of_pos, List.takeWhile_cons_of_neg,
      List.append_nil, String.ofList_toList]
    · simp
    · exact fun c member => bne_iff_ne.mpr fun bracket => closed (bracket ▸ member)
  have bracket : ∀ name ∈ source.exported, ')' ∉ name.toList := fun name member inside =>
    absurd (List.all_eq_true.mp (names name member).isNameChar _ inside) (by decide)
  cases exported : source.exported.isEmpty with
  | true =>
    rw [listed ".." (by decide) (by rw [exported]; rfl)]
    exact (by decide : (Text.splitAt ',' "..").map Text.trim = [".."])
  | false =>
    have some_ : source.exported ≠ [] := fun none => by simp [none] at exported
    rw [listed (Text.commaSeparated source.exported) ?_ (by rw [exported]; rfl), trim_splitAt_commaSeparated some_ names]
    · rfl
    · exact not_mem_intercalate (by decide) bracket

end Elm

/-! ## Once -/

/-- No test is listed to be exported in a test module, which exports its tests by itself. -/
def Module.ListsNoTest (module : Module) : Prop :=
  Text.endsWith module.name "_test" = true →
    ∀ name ∈ module.exposed, name ∈ module.definedNames → Text.startsWith name "test" = false

theorem Module.listsNoTest_iff {module : Module} : module.ListsNoTest ↔ ∀ name ∈ module.exposed, name ∉ module.tests := by
  refine ⟨fun none name listed test => ?_, fun apart isTest name listed defined => ?_⟩
  · obtain ⟨isTest, defined, start⟩ := mem_tests.mp test
    rw [none isTest name listed defined] at start
    cases start
  · exact Bool.eq_false_iff.mpr fun start => apart name listed (mem_tests.mpr ⟨isTest, defined, start⟩)

/-- **Each name is exported once just in case no test is listed.** A script has a line for each time that a name is exported,
and the header of an Elm module has the name as often. -/
theorem exported_once_iff {source name : String} (short : (parseModule source name).Everywhere Short.checks)
    (defined : (parseModule source name).definedNames.Nodup) (exposed : (parseModule source name).exposed.Nodup) :
    (∀ dialect exported, Ecma.exportLines dialect (parseModule source name) exported =
        (parseModule source name).exposed.count exported + (parseModule source name).tests.count exported) ∧
      ((∀ dialect exported, Ecma.exportLines dialect (parseModule source name) exported ≤ 1) ↔
        (parseModule source name).ListsNoTest) ∧
      ((Elm.headerNames name (Elm.module (parseModule source name))).Nodup ↔ (parseModule source name).ListsNoTest) := by
  have sound : (parseModule source name).Everywhere Sound.checks := sound_parse source
  have flat : (parseModule source name).Everywhere flatTexts := Module.Everywhere.both flatTexts_follow sound short
  have once : (parseModule source name).exported.Nodup ↔ (parseModule source name).ListsNoTest :=
    (Module.nodup_exported defined exposed).trans Module.listsNoTest_iff.symm
  have lines := fun dialect exported => Ecma.exportLines_eq dialect flat exported
  refine ⟨fun dialect exported => (lines dialect exported).trans List.count_append, ?_, ?_⟩
  · rw [← once, List.nodup_iff_count_le_one]
    exact ⟨fun few exported => lines .javaScript exported ▸ few .javaScript exported,
      fun few dialect exported => (lines dialect exported).trans_le (few exported)⟩
  · have named : (parseModule source name).name = name := rfl
    have header := Elm.headerNames_module (Module.name_of_exported flat)
    rw [named] at header
    rw [header, ← once]
    split
    · rename_i none
      simp [List.isEmpty_iff.mp none]
    · rfl

/-- A test module with one test, which lists a name to export. -/
def testSource (listed : String) : String :=
  "exposing (" ++ listed ++ ")\n\nmain =\n    1\n\ntestOne =\n    2\n"

/-- Its declarations. -/
def testBody (listed : String) : List Block :=
  [.exports [listed], .constant ⟨"main", .any, ⟨[], .value "1"⟩⟩, .constant ⟨"testOne", .any, ⟨[], .value "2"⟩⟩]

theorem read_testSource :
    (parseModule (testSource "main") "Main_test").body = testBody "main" ∧
      (parseModule (testSource "testOne") "Main_test").body = testBody "testOne" := by
  constructor <;> with_unfolding_all rfl

section Test

variable {listed : String} {module : Module} (read : module.body = testBody listed)

include read

theorem short_of_testBody : module.Everywhere Short.checks := by
  rw [Module.Everywhere, read]
  simp [testBody, Block.Everywhere, Body.Everywhere, Block.EverywhereEach, Expression.Inside, Short.checks, OneLine.checks]

theorem names_of_testBody : module.definedNames = ["main", "testOne"] ∧ module.exposed = [listed] := by
  rw [Module.definedNames, Module.exposed, read]
  exact ⟨rfl, rfl⟩

theorem nodup_of_testBody : module.definedNames.Nodup ∧ module.exposed.Nodup := by
  obtain ⟨defined, exposed⟩ := names_of_testBody read
  rw [defined, exposed]
  exact ⟨by decide, List.nodup_singleton listed⟩

end Test

/-- A test module that lists its `main` exports that and its test once each. -/
theorem exported_once_iff_main :
    (parseModule (testSource "main") "Main_test").Everywhere Short.checks ∧
      (parseModule (testSource "main") "Main_test").ListsNoTest ∧
      (∀ dialect name, Ecma.exportLines dialect (parseModule (testSource "main") "Main_test") name ≤ 1) ∧
      (Elm.headerNames "Main_test" (Elm.module (parseModule (testSource "main") "Main_test"))).Nodup := by
  have read := read_testSource.1
  have short := short_of_testBody read
  obtain ⟨defined, exposed⟩ := nodup_of_testBody read
  obtain ⟨-, lines, header⟩ := exported_once_iff short defined exposed
  have none : (parseModule (testSource "main") "Main_test").ListsNoTest := by
    intro _ name listed _
    rw [(names_of_testBody read).2] at listed
    rw [List.mem_singleton.mp listed]
    decide
  exact ⟨short, none, lines.mpr none, header.mpr none⟩

/-- **A test that is listed is exported twice**, in the scripts of both languages and in the header of the Elm module. -/
theorem listed_test_twice :
    (parseModule (testSource "testOne") "Main_test").definedNames.Nodup ∧
      (parseModule (testSource "testOne") "Main_test").exposed.Nodup ∧
      (∀ dialect, Ecma.exportLines dialect (parseModule (testSource "testOne") "Main_test") "testOne" = 2) ∧
      Elm.headerNames "Main_test" (Elm.module (parseModule (testSource "testOne") "Main_test")) = ["testOne", "testOne"] := by
  have read := read_testSource.2
  obtain ⟨defined, exposed⟩ := nodup_of_testBody read
  have flat : (parseModule (testSource "testOne") "Main_test").Everywhere flatTexts :=
    Module.Everywhere.both flatTexts_follow (sound_parse _) (short_of_testBody read)
  have exported : (parseModule (testSource "testOne") "Main_test").exported = ["testOne", "testOne"] := by
    have named : (parseModule (testSource "testOne") "Main_test").name = "Main_test" := rfl
    obtain ⟨names, listed⟩ := names_of_testBody read
    rw [Module.exported, Module.tests_eq, names, listed, named]
    decide
  refine ⟨defined, exposed, fun dialect => ?_, ?_⟩
  · rw [Ecma.exportLines_eq dialect flat, exported]
    decide
  · have header := Elm.headerNames_module (Module.name_of_exported flat)
    rwa [exported] at header

end DerwLang
