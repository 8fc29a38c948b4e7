/-
**What compiling all sources does to a file tree.**

Each source is a step (`Compiled`), and a run is all steps in order, up to the first that ends it.

* `sources_kept`: a source is as it was after every run, if no text goes to its place that is written for a source at
  another path; a text that would go onto its own source is refused;
* `compile_isolated`: where nothing is refused, and no two texts go to one place or to that of a source, each source without
  errors has its text written, all other files are as they were, and the run fails exactly if some source has errors;
* `later_source_overwritten`: the text for one source can go onto another one.
-/

import DerwLang.Proofs.Compile.Collect

namespace DerwLang.CommandLine

open FileTree

/-! ### Sources in a tree -/

/-- The place that the text for a source is written to. -/
def CompileOptions.place (options : CompileOptions) (tree : FileTree) (source : Source) : List String :=
  tree.landing (options.destination source).text

/-- The module that a source declares, if its file can be read. -/
def Source.moduleIn? (source : Source) (tree : FileTree) : Option Module :=
  match tree.read source.path.text with
  | .ok contents => some (source.module contents)
  | .error _ => none

/-- The source can be read as a module. -/
def Source.parsesIn (source : Source) (tree : FileTree) : Bool :=
  (source.moduleIn? tree).any (·.errors.isEmpty)

section Runs

variable {tree after : FileTree} {options : CompileOptions} {source : Source} {session : Session} {sources : List Source}
  {changed : Set (List String)} {answer : Except Failure Bool}

theorem moduleIn?_of_read {contents : String} (read : tree.read source.path.text = .ok contents) :
    source.moduleIn? tree = some (source.module contents) := by
  rw [Source.moduleIn?, read]

/-- What a source declares stays, where its file does. -/
theorem moduleIn?_of_frame (frame : Frame changed tree after) {contents : String}
    (read : tree.read source.path.text = .ok contents) (outside : tree.landing source.path.text ∉ changed) :
    source.moduleIn? after = source.moduleIn? tree := by
  rw [moduleIn?_of_read read, moduleIn?_of_read (read_of_frame frame read outside)]

/-! ### Frames of runs -/

/-- A step changes the file that the text is written to, and none if it would be the source at its own path. -/
theorem Compiled.frame (comesTo : Compiled options source tree answer after) (sound : tree.Sound)
    (within : options.destination source ≠ source.path → options.place tree source ∈ changed) :
    Frame changed tree after ∧ after.Sound := by
  cases comesTo with
  | unreadable | broken | overwriting => exact ⟨.refl _ _, sound⟩
  | uncreatable frame keeps | unwritable frame keeps => exact ⟨frame.mono (Set.empty_subset _), keeps⟩
  | written _ _ apart frame keeps => exact ⟨frame.mono fun _ same => same ▸ within apart, keeps⟩

/-- A run ends with the first step that fails, or goes on after it. -/
theorem countFailures_cases {step : Source → ExceptT Failure (StateM Session) Bool} {answer : Except Failure Nat}
    {after : Session} (ran : runIn (countFailures step (source :: sources)) session = (answer, after)) :
    (∃ failure, runIn (step source) session = (.error failure, after) ∧ answer = .error failure) ∨
      ∃ succeeded middle later, runIn (step source) session = (.ok succeeded, middle) ∧
        runIn (countFailures step sources) middle = (later, after) ∧
        answer = later.map fun failures => if succeeded then failures else failures + 1 := by
  rw [countFailures, runIn_bind] at ran
  rcases first : runIn (step source) session with ⟨failure | succeeded, middle⟩
  · rw [first] at ran
    obtain ⟨rfl, rfl⟩ := Prod.mk.inj ran
    exact .inl ⟨failure, rfl, rfl⟩
  · rw [first] at ran
    dsimp only at ran
    rw [runIn_bind] at ran
    rcases others : runIn (countFailures step sources) middle with ⟨later, last⟩
    rw [others] at ran
    cases later
    all_goals
      obtain ⟨rfl, rfl⟩ := Prod.mk.inj ran
      exact .inr ⟨succeeded, middle, _, rfl, others, rfl⟩

/-- A run over sources changes no file but those that the texts go to. -/
theorem frame_countFailures (sound : session.tree.Sound)
    (within : ∀ source ∈ sources, options.destination source ≠ source.path →
      options.place session.tree source ∈ changed) {answer : Except Failure Nat} {after : Session}
    (ran : runIn (countFailures options.compileSource sources) session = (answer, after)) :
    Frame changed session.tree after.tree ∧ after.tree.Sound := by
  induction sources generalizing session answer after with
  | nil =>
    obtain ⟨-, rfl⟩ := Prod.mk.inj ran
    exact ⟨.refl _ _, sound⟩
  | cons source rest step =>
    have comesTo := compiled_compileSource options source sound
    rcases countFailures_cases ran with ⟨failure, first, -⟩ | ⟨succeeded, middle, later, first, others, -⟩
    all_goals
      rw [first] at comesTo
      obtain ⟨frame, keeps⟩ := comesTo.frame sound (within source List.mem_cons_self)
    · exact ⟨frame, keeps⟩
    · have further : ∀ other ∈ rest, options.destination other ≠ other.path →
          options.place middle.tree other ∈ changed := by
        intro other member apart
        rw [CompileOptions.place, frame.landing]
        exact within other (List.mem_cons_of_mem _ member) apart
      obtain ⟨later, sound⟩ := step keeps further others
      exact ⟨frame.trans later, sound⟩

/-- The run of a command is that over the sources it collects; in the end the tree is that after the last source. -/
theorem runIn_run (collected : (runIn (Source.collect options.inputs) session).1 = .ok sources) :
    runIn options.run session =
      match runIn (countFailures options.compileSource sources) session with
      | (.ok failures, after) => (if failures > 0 then .error (.uncompiled failures) else .ok (), after)
      | (.error failure, after) => (.error failure, after) := by
  have unchanged := runIn_collect_session options.inputs session
  have all : runIn (Source.collect options.inputs) session = (.ok sources, session) := Prod.ext collected unchanged
  unfold CompileOptions.run
  rw [runIn_bind_ok all, runIn_bind]
  rcases runIn (countFailures options.compileSource sources) session with ⟨_ | failures, after⟩
  · rfl
  · dsimp only
    split <;> rfl

/-- **A run changes no file** but those that the texts of sources at other paths go to, failed or not. -/
theorem frame_run (sound : session.tree.Sound)
    (collected : (runIn (Source.collect options.inputs) session).1 = .ok sources)
    (within : ∀ source ∈ sources, options.destination source ≠ source.path →
      options.place session.tree source ∈ changed) :
    Frame changed session.tree (runIn options.run session).2.tree := by
  rw [runIn_run collected]
  rcases ran : runIn (countFailures options.compileSource sources) session with ⟨_ | failures, after⟩
  all_goals exact (frame_countFailures sound within ran).1

end Runs

/-! ### Sources stay -/

/-- **A source is as it was after every run**, failed or not, if none of the texts that are written for sources at other paths
goes to its place. -/
theorem sources_kept (options : CompileOptions) {session : Session} (sound : session.tree.Sound) {sources : List Source}
    (collected : (runIn (Source.collect options.inputs) session).1 = .ok sources) {source : Source} {place : List String}
    {contents : Contents} (found : session.tree.find source.path.text = .ok (place, .file contents))
    (apart : ∀ other ∈ sources, options.destination other ≠ other.path → options.place session.tree other ≠ place) :
    (runIn options.run session).2.tree.find source.path.text = .ok (place, .file contents) := by
  have outside : place ∉ {other | other ≠ place} := fun absurd_ => absurd_ rfl
  exact find_of_frame (frame_run sound collected apart) found outside

/-- A directory with two sources of one name, each in a directory of its own. -/
def twins : Session :=
  ⟨⟨["w"], [(["w"], .directory), (["w", "app"], .directory), (["w", "app", "a.derw"], .file (.text "x =\n    1\n")),
    (["w", "lib"], .directory), (["w", "lib", "a.derw"], .file (.text "y =\n    2\n"))]⟩, "", ""⟩

/-- Their paths, and the directories they are found under. -/
def twinSources : List Source :=
  ["app", "lib"].map fun directory => ⟨⟨.above 0, [directory, "a.derw"]⟩, some ⟨.above 0, [directory]⟩⟩

/-- Both are written below one directory. -/
def bothTo (directory : String) (target : Target) : CompileOptions :=
  ⟨["app", "lib"], target, some directory, false, false⟩

/-- A tree is sound if each of its entries stands in a directory, and the place that one works in is one. -/
theorem sound_of_entries {tree : FileTree}
    (within : ∀ entry ∈ tree.entries, tree.entryAt? entry.1.dropLast = some .directory)
    (standing : tree.entryAt? tree.location = some .directory) : tree.Sound := by
  refine ⟨fun {place name entry} stands => ?_, standing⟩
  have listed : tree.entries.lookup (place ++ [name]) = some entry := by
    simpa [FileTree.entryAt?] using stands
  obtain ⟨before, after, same, -⟩ := List.lookup_eq_some_iff.mp listed
  have parent := within (place ++ [name], entry) (by simp [same])
  rwa [List.dropLast_concat] at parent

theorem sound_twins : twins.tree.Sound :=
  sound_of_entries (by decide) (by decide)

/-- Written as JavaScript, the two sources stay as they are. -/
theorem sources_kept_twins :
    (runIn (bothTo "lib" .javaScript).run twins).2.tree.find "lib/a.derw" =
      .ok (["w", "lib", "a.derw"], .file (.text "y =\n    2\n")) :=
  @sources_kept (bothTo "lib" .javaScript) twins sound_twins twinSources rfl ⟨⟨.above 0, ["lib", "a.derw"]⟩, none⟩ _ _ rfl
    (by decide +kernel)

/-- **The text of one source can go onto another one**: the first of two sources is written over the second, and then the
second is kept from going onto itself. -/
theorem later_source_overwritten :
    (runIn (Source.collect (bothTo "lib" .canonical).inputs) twins).1 = .ok twinSources ∧
      twins.tree.read "lib/a.derw" = .ok "y =\n    2\n" ∧
      (runIn (bothTo "lib" .canonical).run twins).2.tree.read "lib/a.derw" = .ok "x =\n    1\n" :=
  ⟨rfl, rfl, by decide +kernel⟩

/-! ### Runs without refusals -/

/-- The failure is the refusal of something that was to be written. -/
def Failure.isRefusal : Failure → Bool
  | .uncreatable _ _ | .unwritable _ _ => true
  | _ => false

/-- Something that was to be written was refused. -/
def isRefused {α : Type} : Except Failure α → Bool
  | .error failure => failure.isRefusal
  | .ok _ => false

theorem isRefused_map {α β : Type} (answer : Except Failure α) (next : α → β) :
    isRefused (answer.map next) = isRefused answer := by
  cases answer <;> rfl

section Isolation

variable {options : CompileOptions} {source : Source} {session : Session} {sources : List Source}

/-- A step that is not refused fails for errors in the source, or writes its text. -/
theorem step_of_unrefused (sound : session.tree.Sound) {contents : String}
    (read : session.tree.read source.path.text = .ok contents)
    (elsewhere : options.place session.tree source ≠ session.tree.landing source.path.text)
    {answer : Except Failure Bool} {after : Session}
    (ran : runIn (options.compileSource source) session = (answer, after)) (unrefused : isRefused answer = false) :
    answer = .ok (source.parsesIn session.tree) ∧ after.tree.Sound ∧
      (source.parsesIn session.tree = true →
        after.tree.fileAt? (options.place session.tree source) =
          some (.text (options.output (source.module contents)))) ∧
      Frame {place | source.parsesIn session.tree = true ∧ options.place session.tree source = place}
        session.tree after.tree := by
  have parses : source.parsesIn session.tree = (source.module contents).errors.isEmpty := by
    rw [Source.parsesIn, moduleIn?_of_read read, Option.any_some]
  have comesTo := compiled_compileSource options source sound
  rw [ran] at comesTo
  generalize after.tree = tree at comesTo ⊢
  cases comesTo with
  | unreadable unread =>
    rw [read] at unread
    cases unread
  | broken reads errors =>
    obtain rfl := Except.ok.inj (read.symm.trans reads)
    have fails : source.parsesIn session.tree = false := by simpa [parses] using errors
    exact ⟨by rw [fails], sound, by simp [fails], .refl _ _⟩
  | overwriting same => exact absurd (by rw [CompileOptions.place, same]) elsewhere
  | uncreatable | unwritable => cases unrefused
  | written reads errors _ frame keeps file =>
    obtain rfl := Except.ok.inj (read.symm.trans reads)
    have succeeds : source.parsesIn session.tree = true := by simp [parses, errors]
    exact ⟨by rw [succeeds], keeps, fun _ => file, frame.mono fun place same => ⟨succeeds, same.symm⟩⟩

/-- Other sources declare what they declared, where no text goes to their places. -/
theorem parsesIn_of_frame {after : FileTree} {changed : Set (List String)} (frame : Frame changed session.tree after)
    {contents : String} (read : session.tree.read source.path.text = .ok contents)
    (outside : session.tree.landing source.path.text ∉ changed) :
    source.parsesIn after = source.parsesIn session.tree := by
  rw [Source.parsesIn, moduleIn?_of_frame frame read outside, Source.parsesIn]

/-- **A run that is not refused takes each source by itself**: it fails as many times as there are sources with errors, and
writes the texts of the others. -/
theorem run_of_unrefused (sound : session.tree.Sound)
    (readable : ∀ source ∈ sources, ∃ contents, session.tree.read source.path.text = .ok contents)
    (distinct : sources.Pairwise fun first second => options.place session.tree first ≠ options.place session.tree second)
    (apart : ∀ source ∈ sources, ∀ other ∈ sources,
      options.place session.tree source ≠ session.tree.landing other.path.text)
    {answer : Except Failure Nat} {after : Session}
    (ran : runIn (countFailures options.compileSource sources) session = (answer, after)) (unrefused : isRefused answer = false) :
    answer = .ok (sources.countP fun source => !source.parsesIn session.tree) ∧
      (∀ source ∈ sources, source.parsesIn session.tree = true → ∀ contents,
        session.tree.read source.path.text = .ok contents →
        after.tree.fileAt? (options.place session.tree source) =
          some (.text (options.output (source.module contents)))) ∧
      Frame {place | ∃ source ∈ sources, source.parsesIn session.tree = true ∧ options.place session.tree source = place}
        session.tree after.tree := by
  induction sources generalizing session answer after with
  | nil =>
    obtain ⟨rfl, rfl⟩ := Prod.mk.inj ran
    exact ⟨rfl, by simp, .refl _ _⟩
  | cons source rest step =>
    obtain ⟨contents, read⟩ := readable source List.mem_cons_self
    have elsewhere := apart source List.mem_cons_self source List.mem_cons_self
    rcases countFailures_cases ran with ⟨failure, first, rfl⟩ | ⟨succeeded, middle, later, first, others, rfl⟩
    · -- a step that fails is one that is refused
      have failed := (step_of_unrefused sound read elsewhere first unrefused).1
      cases failed
    · obtain ⟨same, keeps, file, frame⟩ := step_of_unrefused sound read elsewhere first rfl
      obtain rfl := Except.ok.inj same
      -- the sources that follow, and their places, are as they were
      have outside : ∀ other ∈ rest, session.tree.landing other.path.text ∉
          {place | source.parsesIn session.tree = true ∧ options.place session.tree source = place} :=
        fun other member inside => apart source List.mem_cons_self other (List.mem_cons_of_mem _ member) inside.2
      have places : ∀ other, options.place middle.tree other = options.place session.tree other :=
        fun other => frame.landing _
      have reads : ∀ other ∈ rest, ∀ contents, session.tree.read other.path.text = .ok contents →
          middle.tree.read other.path.text = .ok contents :=
        fun other member contents read => read_of_frame frame read (outside other member)
      have parses : ∀ other ∈ rest, other.parsesIn middle.tree = other.parsesIn session.tree := by
        intro other member
        obtain ⟨contents, read⟩ := readable other (List.mem_cons_of_mem _ member)
        exact parsesIn_of_frame frame read (outside other member)
      rw [List.pairwise_cons] at distinct
      obtain ⟨rfl, files, further⟩ := step keeps
        (fun other member => (readable other (List.mem_cons_of_mem _ member)).imp (reads other member))
        (distinct.2.imp fun differ => by rwa [places, places])
        (fun other member another among => by
          rw [places, frame.landing]
          exact apart other (List.mem_cons_of_mem _ member) another (List.mem_cons_of_mem _ among))
        others ((isRefused_map _ _).symm.trans unrefused)
      refine ⟨?_, ?_, ?_⟩
      · have counts : rest.countP (fun other => !other.parsesIn middle.tree) =
            rest.countP fun other => !other.parsesIn session.tree :=
          List.countP_congr fun other member => by rw [parses other member]
        rw [counts, List.countP_cons]
        cases source.parsesIn session.tree <;> rfl
      · intro other member succeeds contents readOther
        rcases List.mem_cons.mp member with rfl | inside
        · obtain rfl := Except.ok.inj (read.symm.trans readOther)
          rw [← file succeeds]
          refine further.files ?_
          rintro ⟨another, among, -, same⟩
          rw [places] at same
          exact distinct.1 another among same.symm
        · rw [← places]
          exact files other inside ((parses other inside).trans succeeds) contents (reads other inside contents readOther)
      · refine Frame.trans (frame.mono fun place inside => ⟨source, List.mem_cons_self, inside⟩)
          (further.mono ?_)
        rintro place ⟨other, inside, succeeds, same⟩
        exact ⟨other, List.mem_cons_of_mem _ inside, (parses other inside).symm.trans succeeds, (places other).symm.trans same⟩

/-- The exit code tells whether a command failed, and the tree is that which the command leaves. -/
theorem run_command (command : Command) {arguments : List String}
    (asked : Request.ofArguments arguments = .ok (.run command)) (session : Session) :
    ((CommandLine.run arguments : StateM Session UInt32) session).1 = (if (runIn command.run session).1.isOk then 0 else 1) ∧
      ((CommandLine.run arguments : StateM Session UInt32) session).2.tree = (runIn command.run session).2.tree := by
  rw [run_session command asked]
  rcases runIn command.run session with ⟨_ | _, _⟩ <;> exact ⟨rfl, rfl⟩

end Isolation

/-- **One bad source neither hides nor changes the others.** If all sources can be read, no two texts go to one place or to
that of a source, and nothing is refused, then a run fails exactly if there are sources with errors; the others have their
texts written, each from its own contents, and no other file changes. Problems with types play no part. -/
theorem compile_isolated (options : CompileOptions) {session : Session} (sound : session.tree.Sound) {sources : List Source}
    (collected : (runIn (Source.collect options.inputs) session).1 = .ok sources)
    (readable : ∀ source ∈ sources, ∃ contents, session.tree.read source.path.text = .ok contents)
    (distinct : sources.Pairwise fun first second => options.place session.tree first ≠ options.place session.tree second)
    (apart : ∀ source ∈ sources, ∀ other ∈ sources,
      options.place session.tree source ≠ session.tree.landing other.path.text)
    (unrefused : isRefused (runIn options.run session).1 = false) {arguments : List String}
    (asked : Request.ofArguments arguments = .ok (.run (.compile options))) :
    let ran := (CommandLine.run arguments : StateM Session UInt32) session
    (ran.1 = if sources.all (·.parsesIn session.tree) then 0 else 1) ∧
      (∀ source ∈ sources, ∀ module, source.moduleIn? session.tree = some module → module.errors = [] →
        ran.2.tree.fileAt? (options.place session.tree source) = some (.text (options.output module))) ∧
      ∀ place, (∀ source ∈ sources, source.parsesIn session.tree = true → options.place session.tree source ≠ place) →
        ran.2.tree.fileAt? place = session.tree.fileAt? place := by
  have whole := runIn_run collected
  rcases counted : runIn (countFailures options.compileSource sources) session with ⟨answer, after⟩
  rw [counted] at whole
  have unrefusedCount : isRefused answer = false := by
    cases answer with
    | error failure =>
      rw [whole] at unrefused
      exact unrefused
    | ok failures => rfl
  obtain ⟨rfl, files, frame⟩ := run_of_unrefused sound readable distinct apart counted unrefusedCount
  dsimp only at whole
  obtain ⟨code, tree⟩ := run_command (.compile options) asked session
  rw [Command.run, whole] at code tree
  refine ⟨?_, ?_, ?_⟩
  · rw [code]
    by_cases all : ∀ source ∈ sources, source.parsesIn session.tree = true
    · have none : sources.countP (fun source => !source.parsesIn session.tree) = 0 := by
        rw [List.countP_eq_zero]
        intro source member
        simp [all source member]
      rw [none, if_pos (List.all_eq_true.mpr all)]
      rfl
    · have some_ : sources.countP (fun source => !source.parsesIn session.tree) > 0 := by
        rw [gt_iff_lt, List.countP_pos_iff]
        push Not at all
        simpa using all
      rw [if_pos some_, if_neg fun every => all (List.all_eq_true.mp every)]
      rfl
  · intro source member module declared errors
    obtain ⟨contents, read⟩ := readable source member
    rw [moduleIn?_of_read read] at declared
    obtain rfl := Option.some.inj declared
    rw [tree]
    refine files source member ?_ contents read
    rw [Source.parsesIn, moduleIn?_of_read read, Option.any_some, errors]
    rfl
  · intro place untouched
    rw [tree]
    refine frame.files ?_
    rintro ⟨source, member, succeeds, same⟩
    exact untouched source member succeeds same

/-- A directory with a source that has a problem with types, one with an error, and one that is in order. -/
def desk : Session :=
  ⟨⟨["w"], [(["w"], .directory), (["w", "a.derw"], .file (.text "x: string\nx =\n    1\n")),
    (["w", "b.derw"], .file (.text "x =\n    1 +\n")), (["w", "c.derw"], .file (.text "x =\n    1\n")),
    (["w", "note"], .file (.binary [255]))]⟩, "", ""⟩

/-- The sources of the directory. -/
def deskSources : List Source :=
  ["a.derw", "b.derw", "c.derw"].map fun name => ⟨⟨.above 0, [name]⟩, some .here⟩

/-- The two sources without errors are written, the other files stay, and the run fails. -/
theorem compile_isolated_desk :
    let ran := (CommandLine.run ["compile", "--target", "js", "-o", "out", "."] : StateM Session UInt32) desk
    ran.1 = 1 ∧ ran.2.tree.fileAt? ["w", "out", "a.js"] = some (.text "const x = 1;\n") ∧
      ran.2.tree.fileAt? ["w", "out", "c.js"] = some (.text "const x = 1;\n") ∧
      ran.2.tree.fileAt? ["w", "out", "b.js"] = none ∧ ran.2.tree.fileAt? ["w", "note"] = some (.binary [255]) := by
  obtain ⟨code, written, kept⟩ := @compile_isolated ⟨["."], .javaScript, some "out", false, false⟩ desk
    (sound_of_entries (by decide) (by decide)) deskSources rfl
    (by
      intro source member
      simp only [deskSources, List.map_cons, List.map_nil, List.mem_cons, List.not_mem_nil, or_false] at member
      rcases member with rfl | rfl | rfl <;> exact ⟨_, rfl⟩)
    (by decide +kernel) (by decide +kernel) (by decide +kernel)
    ["compile", "--target", "js", "-o", "out", "."] rfl
  refine ⟨?_, ?_, ?_, ?_, ?_⟩
  · exact code.trans (by decide +kernel)
  · exact (written ⟨⟨.above 0, ["a.derw"]⟩, some .here⟩ (by decide) _ rfl (by decide +kernel)).trans (by decide +kernel)
  · exact (written ⟨⟨.above 0, ["c.derw"]⟩, some .here⟩ (by decide) _ rfl (by decide +kernel)).trans (by decide +kernel)
  · exact kept ["w", "out", "b.js"] (by decide +kernel)
  · exact kept ["w", "note"] (by decide +kernel)

end DerwLang.CommandLine
