/-
**The sources that are collected.**

Collecting asks the host and changes nothing (`runIn_collect_session`). Every source that comes of it is a file that was
named, or lies below a directory that was (`Found`, `found_of_collect`). They stand in the order of their paths, and so no
path comes twice (`sorted_of_collect`).
-/

import DerwLang.Proofs.Compile.Step
import DerwLang.Proofs.Files.Paths

namespace DerwLang.CommandLine

open FileTree

/-! ### Inputs -/

/-- How a source gets among those of a command: it was named, or has the name of a source and lies below a directory that
was. -/
inductive Found (tree : FileTree) : Source → Prop
  | named {input : String} (file : tree.kindOf input = .ok .file) : Found tree ⟨.ofText input, none⟩
  | below {input : String} {files : List (List String)} {names : List String} (listed : tree.filesBelow input = .ok files)
    (member : names ∈ files) (isSource : names.getLast?.any Source.isName = true) :
    Found tree ⟨(Path.ofText input).down names, some (.ofText input)⟩

section Collecting

variable {session : Session} {sources : List Source}

/-- What an input gives, and that nothing changes. -/
theorem runIn_ofInput (input : String) :
    (runIn (Source.ofInput input) session).2 = session ∧
      ∀ given, (runIn (Source.ofInput input) session).1 = .ok given → ∀ source ∈ given, Found session.tree source := by
  have looked : runIn (demand (.inaccessible input) (Host.kindOf input)) session =
      ((session.tree.kindOf input).mapError (.inaccessible input), session) := runIn_demand _ _
  have listed : runIn (demand (.unlistable input) (Host.filesBelow input)) session =
      ((session.tree.filesBelow input).mapError (.unlistable input), session) := runIn_demand _ _
  unfold Source.ofInput
  cases kind : session.tree.kindOf input with
  | error error =>
    rw [kind] at looked
    rw [runIn_bind_error looked]
    exact ⟨rfl, fun _ absurd_ => by cases absurd_⟩
  | ok kind_ =>
    rw [kind] at looked
    rw [runIn_bind_ok looked]
    cases kind_ with
    | file =>
      refine ⟨rfl, fun given same source member => ?_⟩
      obtain rfl := Except.ok.inj same
      obtain rfl := List.mem_singleton.mp member
      exact .named kind
    | directory =>
      dsimp only
      cases files : session.tree.filesBelow input with
      | error error =>
        rw [files] at listed
        rw [runIn_bind_error listed]
        exact ⟨rfl, fun _ absurd_ => by cases absurd_⟩
      | ok names =>
        rw [files] at listed
        rw [runIn_bind_ok listed]
        refine ⟨rfl, fun given same source member => ?_⟩
        obtain rfl := Except.ok.inj same
        obtain ⟨names, inside, rfl⟩ := List.mem_map.mp member
        obtain ⟨among, isSource⟩ := List.mem_filter.mp inside
        exact .below files among isSource

/-- Whatever holds of the sources at the start, and stays with each that is added, holds of those that are gathered. -/
theorem runIn_gather (inputs : List String) (property : List Source → Prop) (start : property sources)
    (step : ∀ sources source, Found session.tree source → property sources → property (source.insert sources)) :
    (runIn (Source.gather sources inputs) session).2 = session ∧
      ∀ gathered, (runIn (Source.gather sources inputs) session).1 = .ok gathered → property gathered := by
  induction inputs generalizing sources with
  | nil =>
    rw [Source.gather, runIn_pure]
    exact ⟨rfl, fun gathered same => Except.ok.inj same ▸ start⟩
  | cons input rest following =>
    rw [Source.gather]
    obtain ⟨unchanged, found⟩ := @runIn_ofInput session input
    rcases given : runIn (Source.ofInput input) session with ⟨_ | added, after⟩
    · rw [runIn_bind_error given]
      rw [given] at unchanged
      exact ⟨unchanged, fun _ absurd_ => by cases absurd_⟩
    · rw [runIn_bind_ok given]
      rw [given] at unchanged found
      obtain rfl : after = session := unchanged
      refine following ?_
      have all := found added rfl
      clear given found
      induction added generalizing sources with
      | nil => exact start
      | cons source others more =>
        exact more (step sources source (all source List.mem_cons_self) start)
          fun other member => all other (List.mem_cons_of_mem _ member)

/-- The same for the sources of a command. -/
theorem runIn_collect (inputs : List String) (property : List Source → Prop) (start : property [])
    (step : ∀ sources source, Found session.tree source → property sources → property (source.insert sources)) :
    (runIn (Source.collect inputs) session).2 = session ∧
      ∀ collected, (runIn (Source.collect inputs) session).1 = .ok collected → property collected := by
  unfold Source.collect
  split
  · exact runIn_gather _ property start step
  · exact runIn_gather inputs property start step

/-- **Collecting changes nothing.** -/
theorem runIn_collect_session (inputs : List String) (session : Session) : (runIn (Source.collect inputs) session).2 = session :=
  (runIn_collect inputs (fun _ => True) trivial fun _ _ _ _ => trivial).1

theorem mem_insert {source other : Source} (member : other ∈ source.insert sources) : other = source ∨ other ∈ sources := by
  fun_induction Source.insert source sources with
  | case1 => exact .inl (List.mem_singleton.mp member)
  | case2 => exact .inr member
  | case3 => exact List.mem_cons.mp member
  | case4 head rest _ _ step =>
    rcases List.mem_cons.mp member with rfl | later
    · exact .inr List.mem_cons_self
    · exact (step later).imp_right (List.mem_cons_of_mem _)

/-- **Each source was named, or lies below a directory that was.** -/
theorem found_of_collect {inputs : List String} (collected : (runIn (Source.collect inputs) session).1 = .ok sources) :
    ∀ source ∈ sources, Found session.tree source := by
  refine (runIn_collect inputs (fun sources => ∀ source ∈ sources, Found session.tree source) ?_ ?_).2 _ collected
  · simp
  · intro sources source found all other member
    rcases mem_insert member with rfl | inside
    · exact found
    · exact all other inside

/-! ### Order -/

/-- Sources in the order of their paths. -/
def Sorted (sources : List Source) : Prop :=
  sources.Pairwise fun first second => first.path.before second.path = true

theorem Sorted.insert (sorted : Sorted sources) (source : Source) : Sorted (source.insert sources) := by
  fun_induction Source.insert source sources with
  | case1 => exact List.pairwise_singleton _ _
  | case2 => exact sorted
  | case3 head rest _ earlier =>
    refine List.pairwise_cons.mpr ⟨fun other member => ?_, sorted⟩
    rcases List.mem_cons.mp member with rfl | later
    · exact earlier
    · exact Path.before_trans earlier ((List.pairwise_cons.mp sorted).1 other later)
  | case4 head rest differ notEarlier step =>
    obtain ⟨first, others⟩ := List.pairwise_cons.mp sorted
    refine List.pairwise_cons.mpr ⟨fun other member => ?_, step others⟩
    rcases mem_insert member with rfl | later
    · exact Path.before_of_ne (Ne.symm differ) (by simpa using notEarlier)
    · exact first other later

/-- **The sources are in the order of their paths**, and so no path comes twice. -/
theorem sorted_of_collect {inputs : List String} (collected : (runIn (Source.collect inputs) session).1 = .ok sources) :
    Sorted sources := by
  refine (runIn_collect inputs Sorted ?_ ?_).2 _ collected
  · exact List.Pairwise.nil
  · exact fun sources source _ sorted => sorted.insert source

end Collecting

end DerwLang.CommandLine
