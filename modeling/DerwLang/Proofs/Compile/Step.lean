/-
**What compiling one source does to a file tree.**

Commands run in sessions (`runIn`). All that compiling one source can come to is said once (`Compiled`), with the tree
after it, and `compiled_compileSource` shows that there is nothing else. Facts about whole runs are read off from that.

Printing leaves the tree as it is, and so does a refusal to write. What is written for a source depends on its path and its
contents alone.
-/

import DerwLang.CommandLine.Run
import DerwLang.Proofs.Files.Frame

namespace DerwLang.CommandLine

open FileTree

/-! ### Actions in sessions -/

/-- The answer of an action, and the session after it. -/
def runIn {α : Type} (action : ExceptT Failure (StateM Session) α) (session : Session) : Except Failure α × Session :=
  action.run session

section Actions

variable {α β : Type} {session after : Session}

theorem runIn_pure (value : α) : runIn (pure value) session = (.ok value, session) := rfl

/-- After an action that answers comes what goes on from its answer, and after one that fails nothing. -/
theorem runIn_bind (action : ExceptT Failure (StateM Session) α) (next : α → ExceptT Failure (StateM Session) β) :
    runIn (action >>= next) session =
      match runIn action session with
      | (.ok value, after) => runIn (next value) after
      | (.error failure, after) => (.error failure, after) := by
  show (match action.run session with | (answer, after) => ExceptT.bindCont next answer after) = _
  unfold runIn
  rcases action.run session with ⟨_ | _, _⟩ <;> rfl

theorem runIn_bind_ok {action : ExceptT Failure (StateM Session) α} {value : α}
    (ok : runIn action session = (.ok value, after)) (next : α → ExceptT Failure (StateM Session) β) :
    runIn (action >>= next) session = runIn (next value) after := by
  rw [runIn_bind, ok]

theorem runIn_bind_error {action : ExceptT Failure (StateM Session) α} {failure : Failure}
    (error : runIn action session = (.error failure, after)) (next : α → ExceptT Failure (StateM Session) β) :
    runIn (action >>= next) session = (.error failure, after) := by
  rw [runIn_bind, error]

/-- What goes on from an answer goes on in the session after it. -/
theorem bind_apply (action : StateM Session α) (next : α → StateM Session β) (session : Session) :
    (action >>= next) session = next (action session).1 (action session).2 := rfl

/-- What a host refuses becomes a failure. -/
theorem runIn_demand (failure : FileError → Failure) (answer : StateM Session (Except FileError α)) :
    runIn (demand failure answer) session = ((answer session).1.mapError failure, (answer session).2) := by
  unfold runIn demand
  refine (bind_apply _ _ _).trans ?_
  cases (answer session).1 <;> rfl

theorem runIn_say (line : String) :
    runIn (say line) session = (.ok (), { session with printed := session.printed ++ line ++ "\n" }) := rfl

theorem runIn_warn (line : String) :
    runIn (warn line) session = (.ok (), { session with reported := session.reported ++ line ++ "\n" }) := rfl

/-- Printing changes no tree. -/
theorem runIn_forM (lines : List String) {print : String → ExceptT Failure (StateM Session) Unit}
    (prints : ∀ line session, ∃ after, runIn (print line) session = (.ok (), after) ∧ after.tree = session.tree)
    (session : Session) :
    ∃ after, runIn (lines.forM print) session = (.ok (), after) ∧ after.tree = session.tree := by
  induction lines generalizing session with
  | nil => exact ⟨session, rfl, rfl⟩
  | cons line rest step =>
    obtain ⟨middle, printed, same⟩ := prints line session
    obtain ⟨after, others, kept⟩ := step middle
    refine ⟨after, ?_, kept.trans same⟩
    show runIn (print line >>= fun _ => rest.forM print) session = _
    rw [runIn_bind_ok printed, others]

theorem runIn_announce (outcome : Outcome α) (session : Session) :
    ∃ after, runIn (announce outcome) session = (.ok outcome.result?, after) ∧ after.tree = session.tree := by
  obtain ⟨middle, said, same⟩ := runIn_forM outcome.printed
    (fun line _ => ⟨_, runIn_say line, rfl⟩) session
  obtain ⟨after, warned, kept⟩ := runIn_forM outcome.reported
    (fun line _ => ⟨_, runIn_warn line, rfl⟩) middle
  refine ⟨after, ?_, kept.trans same⟩
  rw [announce, runIn_bind_ok said, runIn_bind_ok warned, runIn_pure]

theorem runIn_readFile (path : Path) :
    runIn (readFile path) session = ((session.tree.read path.text).mapError (.unreadable path), session) :=
  runIn_demand _ _

/-- The program runs the command that is asked for, and reports why it failed if it did. -/
theorem run_session (command : Command) {arguments : List String}
    (asked : Request.ofArguments arguments = .ok (.run command)) (session : Session) :
    (CommandLine.run arguments : StateM Session UInt32) session =
      match runIn command.run session with
      | (.ok (), after) => (0, after)
      | (.error failure, after) => (1, { after with reported := after.reported ++ failure.report ++ "\n" }) := by
  unfold CommandLine.run
  rw [asked]
  dsimp only
  rw [bind_apply]
  unfold runIn
  rcases (command.run : ExceptT Failure (StateM Session) Unit).run session with ⟨_ | _, _⟩ <;> rfl

end Actions

/-! ### One source -/

/-- The module that a source declares with some contents. -/
def Source.module (source : Source) (contents : String) : Module :=
  SourceFile.parse ⟨source.path.text, contents⟩

/-- Where the text written for a source goes. -/
def CompileOptions.destination (options : CompileOptions) (source : Source) : Path :=
  source.destination options.outputDirectory? options.target

/-- What is written for a module. -/
def CompileOptions.output (options : CompileOptions) (module : Module) : String :=
  endLastLine (options.target.generate module)

/-- What compiling a source comes to: the answer, and the tree after it. -/
inductive Compiled (options : CompileOptions) (source : Source) (tree : FileTree) : Except Failure Bool → FileTree → Prop
  /-- the source cannot be read -/
  | unreadable {error : FileError} (unread : tree.read source.path.text = .error error) :
    Compiled options source tree (.error (.unreadable source.path error)) tree
  /-- there are errors in the source -/
  | broken {contents : String} (read : tree.read source.path.text = .ok contents)
    (errors : (source.module contents).errors ≠ []) : Compiled options source tree (.ok false) tree
  /-- the text would go onto the source -/
  | overwriting (same : options.destination source = source.path) :
    Compiled options source tree (.error (.overwriting source.path)) tree
  /-- the directory of the destination is refused -/
  | uncreatable {after : FileTree} {directory : Path} {error : FileError} (frame : Frame ∅ tree after)
    (sound : after.Sound) : Compiled options source tree (.error (.uncreatable directory error)) after
  /-- the destination is refused -/
  | unwritable {after : FileTree} {path : Path} {error : FileError} (frame : Frame ∅ tree after)
    (sound : after.Sound) : Compiled options source tree (.error (.unwritable path error)) after
  /-- the text is written -/
  | written {contents : String} {after : FileTree} (read : tree.read source.path.text = .ok contents)
    (errors : (source.module contents).errors = []) (apart : options.destination source ≠ source.path)
    (frame : Frame {tree.landing (options.destination source).text} tree after) (sound : after.Sound)
    (file : after.fileAt? (tree.landing (options.destination source).text) =
      some (.text (options.output (source.module contents)))) : Compiled options source tree (.ok true) after

section OneSource

variable {session : Session} {options : CompileOptions} {source : Source}

/-- A source without errors has a text, and one with errors has none. Problems with types make no difference. -/
theorem result?_outcome (options : CompileOptions) (source : Source) (contents : String) :
    (options.outcome ⟨source.path.text, contents⟩).result? =
      if (source.module contents).errors = [] then some (options.output (source.module contents)) else none := by
  unfold CompileOptions.outcome Compiler.compile Compiler.read Source.module
  by_cases errors : (SourceFile.parse ⟨source.path.text, contents⟩).errors = []
  · simp only [errors, List.isEmpty_nil, if_true]
    rfl
  · simp [errors]

/-- The directory of a destination is made, or refused; no file changes. -/
theorem runIn_prepareDirectory (sound : session.tree.Sound) (path : Path) :
    ∃ after, Frame ∅ session.tree after.tree ∧ after.tree.Sound ∧
      (runIn (prepareDirectory path) session = (.ok (), after) ∨
        ∃ error, runIn (prepareDirectory path) session = (.error (.uncreatable path.parent error), after)) := by
  unfold prepareDirectory
  split
  · exact ⟨session, .refl _ _, sound, .inl rfl⟩
  · rw [runIn_demand]
    obtain ⟨frame, keeps⟩ := frame_createDirectories sound path.parent.text
    refine ⟨{ session with tree := (session.tree.createDirectories path.parent.text).2 }, frame, keeps, ?_⟩
    show (Except.mapError _ (session.tree.createDirectories path.parent.text).1, _) = _ ∨
      ∃ error, (Except.mapError _ (session.tree.createDirectories path.parent.text).1, _) = _
    cases (session.tree.createDirectories path.parent.text).1 with
    | error error => exact .inr ⟨error, rfl⟩
    | ok => exact .inl rfl

/-- A file is written, or refused with no change. -/
theorem runIn_writeFile (sound : session.tree.Sound) (path : Path) (text : String) :
    (∃ error, runIn (writeFile path text) session = (.error (.unwritable path error), session)) ∨
      ∃ after, runIn (writeFile path text) session = (.ok (), after) ∧
        Frame {session.tree.landing path.text} session.tree after.tree ∧ after.tree.Sound ∧
        after.tree.fileAt? (session.tree.landing path.text) = some (.text text) := by
  unfold writeFile
  rw [runIn_demand]
  show (∃ error, (Except.mapError _ (session.tree.write path.text text).1,
      { session with tree := (session.tree.write path.text text).2 }) = _) ∨
    ∃ after, (Except.mapError _ (session.tree.write path.text text).1,
      { session with tree := (session.tree.write path.text text).2 }) = _ ∧ _
  rcases write_cases sound path.text text with ⟨error, refused⟩ | ⟨after, done, frame, keeps, file⟩
  · rw [refused]
    exact .inl ⟨error, rfl⟩
  · rw [done]
    exact .inr ⟨{ session with tree := after }, rfl, frame, keeps, file⟩

/-- A text that would go onto its source is refused before anything is done. -/
theorem runIn_emit (options : CompileOptions) (source : Source) (text : String) :
    runIn (options.emit source text : ExceptT Failure (StateM Session) Unit) session =
      if options.destination source = source.path then (.error (.overwriting source.path), session)
      else runIn (prepareDirectory (options.destination source) >>= fun _ =>
        writeFile (options.destination source) text >>= fun _ =>
        say ("Compiled " ++ source.path.text ++ " -> " ++ (options.destination source).text)) session := by
  unfold CompileOptions.emit
  dsimp only
  rw [apply_ite (runIn · session)]
  rfl

/-- What emitting the text of a source comes to. -/
theorem compiled_emit (options : CompileOptions) (sound : session.tree.Sound) {contents : String}
    (read : session.tree.read source.path.text = .ok contents) (errors : (source.module contents).errors = []) :
    ∃ answer after, runIn (options.emit source (options.output (source.module contents))) session = (answer, after) ∧
      Compiled options source session.tree (answer.map fun _ => true) after.tree := by
  rw [runIn_emit]
  by_cases same : options.destination source = source.path
  · rw [if_pos same]
    exact ⟨_, _, rfl, .overwriting same⟩
  · rw [if_neg same]
    obtain ⟨made, frame, keeps, directory | ⟨error, directory⟩⟩ :=
      runIn_prepareDirectory sound (options.destination source)
    · rw [runIn_bind_ok directory]
      rcases runIn_writeFile keeps (options.destination source) (options.output (source.module contents)) with
        ⟨error, refused⟩ | ⟨after, done, further, sound, file⟩
      · rw [runIn_bind_error refused]
        exact ⟨_, _, rfl, .unwritable frame keeps⟩
      · rw [runIn_bind_ok done]
        rw [frame.landing] at further file
        exact ⟨_, _, rfl, .written read errors same ((frame.mono (Set.empty_subset _)).trans further) sound file⟩
    · rw [runIn_bind_error directory]
      exact ⟨_, _, rfl, .uncreatable frame keeps⟩

/-- **There is nothing else that compiling a source comes to.** -/
theorem compiled_compileSource (options : CompileOptions) (source : Source) (sound : session.tree.Sound) :
    Compiled options source session.tree (runIn (options.compileSource source) session).1
      (runIn (options.compileSource source) session).2.tree := by
  unfold CompileOptions.compileSource
  cases read : session.tree.read source.path.text with
  | error error =>
    rw [runIn_bind_error (by rw [runIn_readFile, read]; rfl)]
    exact .unreadable read
  | ok contents =>
    rw [runIn_bind_ok (by rw [runIn_readFile, read]; rfl)]
    obtain ⟨announced, answer, same⟩ := runIn_announce (options.outcome ⟨source.path.text, contents⟩) session
    rw [runIn_bind_ok answer, result?_outcome]
    by_cases errors : (source.module contents).errors = []
    · rw [if_pos errors]
      rw [← same] at sound read ⊢
      obtain ⟨answer, after, emitted, comesTo⟩ := compiled_emit options sound read errors
      dsimp only
      rw [runIn_bind, emitted]
      cases answer <;> exact comesTo
    · rw [if_neg errors, runIn_pure, same]
      exact .broken read errors

end OneSource

end DerwLang.CommandLine
