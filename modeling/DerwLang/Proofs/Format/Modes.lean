/-
**Formatting and checking the format.**

Formatting goes over the sources in order, up to the first one that cannot be read or cannot be formatted. One mode names the
sources that are not in their canonical layout, the other one writes over them. What a source comes to in a tree
(`Source.reformatted`) is the same in both modes:

* `runIn_checkEach`: one mode changes no file, and names the loose sources before the first problem;
* `runIn_rewriteEach`: the other mode writes over these sources and over nothing else, if no two paths lead to one file, since
  then each source is found as it was at the start;
* `modes_agree`: both stop at the same source for the same reason, or neither does, and then the check succeeds exactly if there
  is nothing to write.
-/

import DerwLang.Proofs.Compile.Whole

namespace DerwLang.CommandLine

open FileTree

/-! ### Sources in a tree -/

/-- What formatting a source comes to: why it cannot be formatted, or the text that takes the place of its own, if it is not in its
canonical layout. -/
def Source.reformatted (tree : FileTree) (source : Source) : Except Failure (Option String) :=
  match tree.read source.path.text with
  | .error error => .error (.unreadable source.path error)
  | .ok contents =>
    match formatSource contents with
    | .error error => .error (.unformattable source.path error)
    | .ok formatted => .ok (if contents = formatted then none else some formatted)

/-- Why a source cannot be formatted. -/
def Source.problem? (tree : FileTree) (source : Source) : Option Failure :=
  match source.reformatted tree with
  | .error failure => some failure
  | .ok _ => none

/-- The source can be formatted, and is not in its canonical layout. -/
def Source.isLoose (tree : FileTree) (source : Source) : Bool :=
  match source.reformatted tree with
  | .ok (some _) => true
  | _ => false

/-- The loose sources before the first one that cannot be formatted. -/
def looseBefore (tree : FileTree) (sources : List Source) : List Source :=
  (sources.takeWhile fun source => (source.problem? tree).isNone).filter (·.isLoose tree)

/-- The first problem that a source has. -/
def firstProblem? (tree : FileTree) (sources : List Source) : Option Failure :=
  sources.findSome? (·.problem? tree)

/-- A line for each source, which starts with the given words. -/
def listing (words : String) (sources : List Source) : String :=
  String.join (sources.map fun source => words ++ source.path.text ++ "\n")

/-- The two sources do not lie in one place, if they are there. -/
def DifferentFiles (tree : FileTree) (first second : Source) : Prop :=
  (tree.place? first.path.text).isSome = true → tree.place? first.path.text ≠ tree.place? second.path.text

instance (tree : FileTree) (first second : Source) : Decidable (DifferentFiles tree first second) :=
  inferInstanceAs (Decidable (_ → _))

section Modes

variable {tree : FileTree} {source : Source} {sources : List Source} {session : Session} {failure : Failure} {text : String}

theorem looseBefore_error (sources : List Source) (broken : source.reformatted tree = .error failure) :
    looseBefore tree (source :: sources) = [] ∧ firstProblem? tree (source :: sources) = some failure := by
  have problem : source.problem? tree = some failure := by rw [Source.problem?, broken]
  constructor
  · rw [looseBefore, List.takeWhile_cons_of_neg (by simp [problem]), List.filter_nil]
  · rw [firstProblem?, List.findSome?_cons, problem]

theorem looseBefore_ok (sources : List Source) {replacement? : Option String}
    (formats : source.reformatted tree = .ok replacement?) :
    looseBefore tree (source :: sources) = (if replacement?.isSome then [source] else []) ++ looseBefore tree sources ∧
      firstProblem? tree (source :: sources) = firstProblem? tree sources := by
  have problem : source.problem? tree = none := by rw [Source.problem?, formats]
  have loose : source.isLoose tree = replacement?.isSome := by
    rw [Source.isLoose, formats]
    cases replacement? <;> rfl
  constructor
  · rw [looseBefore, List.takeWhile_cons_of_pos (by simp [problem]), List.filter_cons, loose, looseBefore]
    split <;> rfl
  · rw [firstProblem?, List.findSome?_cons, problem, firstProblem?]

/-- Loose sources are files whose text is to be replaced by another one. -/
theorem file_of_loose (loose : source.reformatted tree = .ok (some text)) :
    ∃ place contents, tree.place? source.path.text = some place ∧ tree.entryAt? place = some (.file (.text contents)) ∧
      contents ≠ text := by
  unfold Source.reformatted at loose
  cases read : tree.read source.path.text with
  | error error => simp [read] at loose
  | ok contents =>
    obtain ⟨place, here, stands⟩ := exists_place_of_read read
    refine ⟨place, contents, here, stands, ?_⟩
    rw [read] at loose
    dsimp only at loose
    split at loose
    · cases loose
    · rename_i formatted _
      split at loose
      · cases loose
      · rename_i differ
        obtain rfl := Option.some.inj (Except.ok.inj loose)
        exact differ

/-! ### Steps -/

/-- What both modes do with a source: they fail with its problem, leave it if it is in its layout, and differ if it is loose. -/
theorem runIn_formatFile (checkOnly : Bool) (source : Source) (session : Session) :
    runIn (formatFile checkOnly source) session =
      match source.reformatted session.tree with
      | .error failure => (.error failure, session)
      | .ok none => (.ok true, session)
      | .ok (some text) =>
        if checkOnly then
          (.ok false, { session with reported := session.reported ++ ("needs formatting: " ++ source.path.text) ++ "\n" })
        else
          runIn (writeFile source.path text >>= fun _ => say ("Formatted " ++ source.path.text) >>= fun _ => pure true)
            session := by
  unfold formatFile Source.reformatted
  rw [runIn_bind, runIn_readFile]
  cases session.tree.read source.path.text with
  | error error => rfl
  | ok contents =>
    simp only [Except.mapError]
    cases formatSource contents with
    | error error => rfl
    | ok formatted =>
      by_cases same : contents = formatted
      · simp only [same, if_true]
        rfl
      · simp only [same, if_false]
        cases checkOnly <;> rfl

/-- A loose source is written over where it lies. -/
theorem runIn_rewriteLoose {place : List String} {old : Contents} (loose : source.reformatted session.tree = .ok (some text))
    (here : session.tree.place? source.path.text = some place) (stands : session.tree.entryAt? place = some (.file old)) :
    runIn (formatFile false source) session =
      (.ok true, { session with
        tree := session.tree.put place (.file (.text text))
        printed := session.printed ++ ("Formatted " ++ source.path.text) ++ "\n" }) := by
  have written : runIn (writeFile source.path text) session =
      (.ok (), { session with tree := session.tree.put place (.file (.text text)) }) := by
    rw [writeFile, runIn_demand]
    show (Except.mapError _ (session.tree.write source.path.text text).1,
      { session with tree := (session.tree.write source.path.text text).2 }) = _
    rw [write_over here stands]
    rfl
  rw [runIn_formatFile, loose]
  dsimp only
  rw [if_neg Bool.false_ne_true, runIn_bind_ok written]
  rfl

/-! ### All sources -/

theorem listing_append (words : String) (front back : List Source) :
    listing words (front ++ back) = listing words front ++ listing words back := by
  rw [listing, List.map_append, String.join_append]
  rfl

/-- **The mode that checks** changes no file and names the loose sources before the first problem. -/
theorem runIn_checkEach (sources : List Source) (session : Session) :
    runIn (countFailures (formatFile true) sources) session =
      ((firstProblem? session.tree sources).elim (.ok (looseBefore session.tree sources).length) .error,
        { session with reported := session.reported ++ listing "needs formatting: " (looseBefore session.tree sources) }) := by
  induction sources generalizing session with
  | nil => simp [countFailures, looseBefore, firstProblem?, listing, runIn_pure]
  | cons source rest step =>
    have first := runIn_formatFile true source session
    cases comesTo : source.reformatted session.tree with
    | error failure =>
      obtain ⟨none_, problem⟩ := looseBefore_error rest comesTo
      rw [comesTo] at first
      rw [countFailures, runIn_bind_error first, none_, problem]
      simp [listing]
    | ok replacement? =>
      obtain ⟨loose, problem⟩ := looseBefore_ok rest comesTo
      rw [comesTo] at first
      cases replacement? with
      | none =>
        rw [countFailures, runIn_bind_ok first, runIn_bind, step, loose, problem]
        cases firstProblem? session.tree rest <;> rfl
      | some text =>
        rw [countFailures, runIn_bind_ok first, runIn_bind, step, loose, problem, listing_append]
        cases firstProblem? session.tree rest
        all_goals
          simp [runIn_pure, listing, String.append_assoc]

/-- From one tree to another, the sources have been written over, and nothing else has changed. -/
structure Rewritten (tree after : FileTree) (sources : List Source) : Prop where
  written : ∀ source ∈ sources, ∀ text, source.reformatted tree = .ok (some text) →
    ∀ place, tree.place? source.path.text = some place → after.entryAt? place = some (.file (.text text))
  kept : ∀ place, (∀ source ∈ sources, tree.place? source.path.text ≠ some place) → after.entryAt? place = tree.entryAt? place

theorem Rewritten.refl (tree : FileTree) : Rewritten tree tree [] :=
  ⟨fun _ absurd_ => absurd absurd_ List.not_mem_nil, fun _ _ => rfl⟩

theorem mem_of_mem_looseBefore (member : source ∈ looseBefore tree sources) : source ∈ sources :=
  (List.takeWhile_sublist _).subset (List.mem_filter.mp member).1

/-- The loose sources are the same in trees in which the sources come to the same. -/
theorem looseBefore_congr {other : FileTree} (same : ∀ source ∈ sources, source.reformatted other = source.reformatted tree) :
    looseBefore other sources = looseBefore tree sources ∧ firstProblem? other sources = firstProblem? tree sources := by
  induction sources with
  | nil => exact ⟨rfl, rfl⟩
  | cons source rest step =>
    obtain ⟨here, later⟩ := List.forall_mem_cons.mp same
    obtain ⟨loose, problem⟩ := step later
    cases comesTo : source.reformatted tree with
    | error failure =>
      have first := looseBefore_error rest comesTo
      have second := looseBefore_error rest (here.trans comesTo)
      exact ⟨second.1.trans first.1.symm, second.2.trans first.2.symm⟩
    | ok replacement? =>
      have first := looseBefore_ok rest comesTo
      have second := looseBefore_ok rest (here.trans comesTo)
      rw [loose, problem] at second
      exact ⟨second.1.trans first.1.symm, second.2.trans first.2.symm⟩

/-- A source at another place comes to the same when a file is written over. -/
theorem reformatted_put_file {place : List String} {old : Contents} (stands : tree.entryAt? place = some (.file old))
    (contents : Contents) (elsewhere : tree.place? source.path.text ≠ some place) :
    source.reformatted (tree.put place (.file contents)) = source.reformatted tree := by
  rw [Source.reformatted, read_put_file stands contents elsewhere, Source.reformatted]

/-- One source is written over, and then others at other places. -/
theorem Rewritten.cons {after : FileTree} {place : List String} {old : Contents}
    (loose : source.reformatted tree = .ok (some text)) (here : tree.place? source.path.text = some place)
    (stands : tree.entryAt? place = some (.file old)) (elsewhere : ∀ other ∈ sources, tree.place? other.path.text ≠ some place)
    (rewritten : Rewritten (tree.put place (.file (.text text))) after sources) : Rewritten tree after (source :: sources) := by
  have below : place ≠ [] := by
    rintro rfl
    cases stands
  have places := fun path => place?_put_file stands (.text text) path
  constructor
  · rw [List.forall_mem_cons]
    constructor
    · intro replacement sameText found sameFound
      obtain rfl : text = replacement := Option.some.inj (Except.ok.inj (loose.symm.trans sameText))
      obtain rfl : place = found := Option.some.inj (here.symm.trans sameFound)
      rw [rewritten.kept place fun other member => by rw [places]; exact elsewhere other member, entryAt?_put below, if_pos rfl]
    · intro other member replacement otherText found otherFound
      have same := reformatted_put_file stands (.text text) (elsewhere other member)
      exact rewritten.written other member replacement (same.trans otherText) found ((places _).trans otherFound)
  · intro other outside
    obtain ⟨notHere, notLater⟩ := List.forall_mem_cons.mp outside
    have apart : other ≠ place := fun same => notHere (same ▸ here)
    rw [rewritten.kept other fun another member => by rw [places]; exact notLater another member, entryAt?_put below,
      if_neg apart]

/-- **The mode that rewrites** writes over the loose sources before the first problem, and changes nothing else. -/
theorem runIn_rewriteEach (apart : sources.Pairwise (DifferentFiles session.tree)) :
    ∃ after, Rewritten session.tree after (looseBefore session.tree sources) ∧
      runIn (countFailures (formatFile false) sources) session =
        ((firstProblem? session.tree sources).elim (.ok 0) .error,
          { session with
            tree := after
            printed := session.printed ++ listing "Formatted " (looseBefore session.tree sources) }) := by
  induction sources generalizing session with
  | nil => exact ⟨session.tree, .refl _, by simp [countFailures, looseBefore, firstProblem?, listing, runIn_pure]⟩
  | cons source rest step =>
    obtain ⟨different, others⟩ := List.pairwise_cons.mp apart
    have first := runIn_formatFile false source session
    cases comesTo : source.reformatted session.tree with
    | error failure =>
      obtain ⟨none_, problem⟩ := looseBefore_error rest comesTo
      rw [comesTo] at first
      refine ⟨session.tree, none_ ▸ .refl _, ?_⟩
      rw [countFailures, runIn_bind_error first, none_, problem]
      simp [listing]
    | ok replacement? =>
      obtain ⟨loose, problem⟩ := looseBefore_ok rest comesTo
      cases replacement? with
      | none =>
        rw [comesTo] at first
        obtain ⟨after, rewritten, ran⟩ := step others
        refine ⟨after, by rw [loose]; exact rewritten, ?_⟩
        rw [countFailures, runIn_bind_ok first, runIn_bind, ran, loose, problem]
        cases firstProblem? session.tree rest <;> rfl
      | some text =>
        obtain ⟨place, old, here, stands, -⟩ := file_of_loose comesTo
        have elsewhere : ∀ other ∈ rest, session.tree.place? other.path.text ≠ some place :=
          fun other member same => different other member (by rw [here]; rfl) (here.trans same.symm)
        -- the sources that follow are as they were
        have same : ∀ other ∈ rest, other.reformatted (session.tree.put place (.file (.text text))) =
            other.reformatted session.tree :=
          fun other member => reformatted_put_file stands _ (elsewhere other member)
        obtain ⟨sameLoose, sameProblem⟩ := looseBefore_congr same
        have places := fun path => place?_put_file stands (.text text) path
        obtain ⟨after, rewritten, ran⟩ := @step
          { session with
            tree := session.tree.put place (.file (.text text))
            printed := session.printed ++ ("Formatted " ++ source.path.text) ++ "\n" }
          (others.imp fun differ => by rwa [DifferentFiles, places, places])
        rw [sameLoose] at rewritten
        refine ⟨after, ?_, ?_⟩
        · rw [loose]
          exact .cons comesTo here stands (fun other member => elsewhere other (mem_of_mem_looseBefore member)) rewritten
        · rw [countFailures, runIn_bind_ok (runIn_rewriteLoose comesTo here stands), runIn_bind, ran, loose, problem,
            sameLoose, sameProblem, listing_append]
          cases firstProblem? session.tree rest
          all_goals
            simp [runIn_pure, listing, String.append_assoc]

end Modes

/-! ### The command -/

section Command

variable {inputs : List String} {session : Session} {sources : List Source}

/-- A run that cannot collect its sources fails before anything is done, in both modes. -/
theorem run_uncollected {checkOnly : Bool} {arguments : List String} {failure : Failure}
    (asked : Request.ofArguments arguments = .ok (.run (.format inputs checkOnly)))
    (collected : (runIn (Source.collect inputs) session).1 = .error failure) :
    (CommandLine.run arguments : StateM Session UInt32) session =
      (1, { session with reported := session.reported ++ failure.report ++ "\n" }) := by
  have all : runIn (Source.collect inputs) session = (.error failure, session) :=
    Prod.ext collected (runIn_collect_session inputs session)
  have fails : runIn (runFormat inputs checkOnly) session = (.error failure, session) := runIn_bind_error all _
  rw [run_session _ asked, Command.run, fails]

/-- A command goes over the sources that it collects, and fails if some are left in another layout. -/
theorem runIn_runFormat (collected : (runIn (Source.collect inputs) session).1 = .ok sources) (checkOnly : Bool) :
    runIn (runFormat inputs checkOnly) session =
      match runIn (countFailures (formatFile checkOnly) sources) session with
      | (.ok unformatted, after) => (if unformatted > 0 then .error .unformatted else .ok (), after)
      | (.error failure, after) => (.error failure, after) := by
  have all : runIn (Source.collect inputs) session = (.ok sources, session) :=
    Prod.ext collected (runIn_collect_session inputs session)
  unfold runFormat
  rw [runIn_bind_ok all, runIn_bind]
  rcases runIn (countFailures (formatFile checkOnly) sources) session with ⟨_ | unformatted, after⟩
  · rfl
  · dsimp only
    split <;> rfl

/-- The whole run of the mode that checks. -/
theorem run_checking {arguments : List String} (asked : Request.ofArguments arguments = .ok (.run (.format inputs true)))
    (collected : (runIn (Source.collect inputs) session).1 = .ok sources) :
    (CommandLine.run arguments : StateM Session UInt32) session =
      let loose := looseBefore session.tree sources
      let named := session.reported ++ listing "needs formatting: " loose
      match firstProblem? session.tree sources with
      | some failure => (1, { session with reported := named ++ failure.report ++ "\n" })
      | none =>
        if loose = [] then (0, { session with reported := named })
        else (1, { session with reported := named ++ Failure.unformatted.report ++ "\n" }) := by
  rw [run_session _ asked, Command.run, runIn_runFormat collected, runIn_checkEach]
  cases firstProblem? session.tree sources with
  | some failure => rfl
  | none =>
    dsimp only [Option.elim_none]
    cases looseBefore session.tree sources <;> rfl

/-- The mode that checks changes no file and prints nothing. -/
theorem kept_checking {arguments : List String} (asked : Request.ofArguments arguments = .ok (.run (.format inputs true)))
    (collected : (runIn (Source.collect inputs) session).1 = .ok sources) :
    let after := ((CommandLine.run arguments : StateM Session UInt32) session).2
    after.tree = session.tree ∧ after.printed = session.printed := by
  rw [run_checking asked collected]
  dsimp only
  split
  · exact ⟨rfl, rfl⟩
  · split <;> exact ⟨rfl, rfl⟩

/-- The whole run of the mode that rewrites. -/
theorem run_rewriting {arguments : List String} (asked : Request.ofArguments arguments = .ok (.run (.format inputs false)))
    (collected : (runIn (Source.collect inputs) session).1 = .ok sources) (apart : sources.Pairwise (DifferentFiles session.tree)) :
    ∃ after, Rewritten session.tree after (looseBefore session.tree sources) ∧
      (CommandLine.run arguments : StateM Session UInt32) session =
        let printed := session.printed ++ listing "Formatted " (looseBefore session.tree sources)
        match firstProblem? session.tree sources with
        | some failure => (1, ⟨after, printed, session.reported ++ failure.report ++ "\n"⟩)
        | none => (0, ⟨after, printed, session.reported⟩) := by
  obtain ⟨after, rewritten, ran⟩ := runIn_rewriteEach apart
  refine ⟨after, rewritten, ?_⟩
  rw [run_session _ asked, Command.run, runIn_runFormat collected, ran]
  cases firstProblem? session.tree sources <;> rfl

end Command

/-- A loose source has a text that is to take the place of its own. -/
theorem reformatted_of_mem {tree : FileTree} {source : Source} {sources : List Source} (member : source ∈ looseBefore tree sources) :
    ∃ text, source.reformatted tree = .ok (some text) := by
  have isLoose := (List.mem_filter.mp member).2
  unfold Source.isLoose at isLoose
  split at isLoose
  · exact ⟨_, by assumption⟩
  · cases isLoose

/-- Writing over loose sources changes the files that they lie in, and nothing else. -/
theorem Rewritten.changed_iff {tree after : FileTree} {sources : List Source}
    (rewritten : Rewritten tree after (looseBefore tree sources)) (place : List String) :
    after.entryAt? place ≠ tree.entryAt? place ↔
      ∃ source ∈ looseBefore tree sources, tree.place? source.path.text = some place := by
  constructor
  · intro changed
    by_contra nowhere
    push Not at nowhere
    exact changed (rewritten.kept place nowhere)
  · rintro ⟨source, member, here⟩ same
    obtain ⟨text, comesTo⟩ := reformatted_of_mem member
    obtain ⟨found, contents, there, stands, differ⟩ := file_of_loose comesTo
    obtain rfl : found = place := Option.some.inj (there.symm.trans here)
    rw [rewritten.written source member text comesTo found here, stands] at same
    exact differ (Contents.text.inj (Entry.file.inj (Option.some.inj same))).symm

/-- Nothing changes just in case there is nothing to write over. -/
theorem Rewritten.unchanged_iff {tree after : FileTree} {sources : List Source}
    (rewritten : Rewritten tree after (looseBefore tree sources)) :
    looseBefore tree sources = [] ↔ ∀ place, after.entryAt? place = tree.entryAt? place := by
  constructor
  · intro none_ place
    refine rewritten.kept place fun source member => ?_
    rw [none_] at member
    exact absurd member List.not_mem_nil
  · intro unchanged
    refine List.eq_nil_iff_forall_not_mem.mpr fun source member => ?_
    obtain ⟨text, comesTo⟩ := reformatted_of_mem member
    obtain ⟨place, -, here, -⟩ := file_of_loose comesTo
    exact (rewritten.changed_iff place).mpr ⟨source, member, here⟩ (unchanged place)

/-- A directory with two loose sources, one that is in its layout between them, and one with an error before the last. -/
def shelf : Session :=
  ⟨⟨["w"], [(["w"], .directory), (["w", "a.derw"], .file (.text "x =\n        1\n")),
    (["w", "b.derw"], .file (.text "x =\n    1\n")), (["w", "c.derw"], .file (.text "x =\n    1 +\n")),
    (["w", "d.derw"], .file (.text "x = 1\n"))]⟩, "", ""⟩

/-- The sources of the directory. -/
def shelfSources : List Source :=
  ["a.derw", "b.derw", "c.derw", "d.derw"].map fun name => ⟨⟨.above 0, [name]⟩, some .here⟩

end DerwLang.CommandLine
