/-
**When two sources have one destination.**

The text for a source goes beside it, or below an output directory to where the source lies below its base; a file that was
named goes there by its name alone (`Source.spot`). So the texts of two sources can go to one file:

* `destinations_meet_iff`: exactly if their spots are in one directory and differ at most in their extensions. Sources that
  lie below named directories never meet beside themselves, nor below an output directory if they have one base;
* `destination_shared`: two sources with different bases meet below an output directory, and one text is lost;
* `all_sources_kept`: no text goes onto a source where none has the extension of the target.

Left out are names that consist of a dot and an extension, such as `..derw`: what is written for them goes to a directory.
-/

import DerwLang.Proofs.Compile.Whole
import DerwLang.Proofs.Files.Written

namespace DerwLang.CommandLine

open FileTree

/-! ### Spots -/

/-- What the destination of a source is made of: its path, or its place below the output directory. -/
def Source.spot (source : Source) (outputDirectory? : Option String) : Path :=
  match outputDirectory? with
  | none => source.path
  | some _ => source.placeBelow

/-- Where the text of a source goes, but for the extension. -/
def Source.position (source : Source) (outputDirectory? : Option String) : Path :=
  match outputDirectory? with
  | none => source.path
  | some directory => (Path.ofText directory).join source.placeBelow

section Spots

variable {tree : FileTree} {source first second : Source} {outputDirectory? : Option String}

theorem destination_eq (source : Source) (outputDirectory? : Option String) (target : Target) :
    source.destination outputDirectory? target = (source.position outputDirectory?).withExtension target.extension := by
  cases outputDirectory? <;> rfl

/-- Where a source lies that was found: there is a way of names down to it, from its base if it has one. -/
theorem spot_of_found (sound : tree.Sound) (found : Found tree source) :
    source.path.names ≠ [] ∧ ∃ names, names ≠ [] ∧ source.placeBelow = ⟨.above 0, names⟩ ∧
      names.getLast? = source.path.names.getLast? := by
  cases found with
  | @named input file =>
    have some_ := Path.names_ne_nil_of_file sound file
    refine ⟨some_, [(Path.ofText input).names.getLast some_], by simp, ?_, ?_⟩
    · simp [Source.placeBelow, Path.fileName?, List.getLast?_eq_some_getLast some_]
    · simp [List.getLast?_eq_some_getLast some_]
  | @below input files names _ _ isSource =>
    have some_ : names ≠ [] := by
      rintro rfl
      cases isSource
    refine ⟨by simp [Path.down, some_], names, some_, ?_, (Path.fileName?_down _ some_).symm⟩
    simp [Source.placeBelow, Path.relativeTo?_down]

/-- The names on the way to a source, and on the way to its place below an output directory, are those of entries. -/
theorem proper_of_found (named : tree.Named) (found : Found tree source) :
    source.path.Proper ∧ source.placeBelow.Proper := by
  cases found with
  | @named input file =>
    have proper := Path.proper_ofText input
    refine ⟨proper, fun name member => ?_⟩
    have last : name ∈ (Path.ofText input).names.getLast?.toList := by
      simpa [Source.placeBelow, Path.fileName?] using member
    exact proper name (List.mem_of_getLast? (Option.mem_toList.mp last))
  | @below input files names listed member isSource =>
    have further := named_of_listed named listed member
    refine ⟨(Path.proper_ofText input).down further, ?_⟩
    simpa [Source.placeBelow, Path.relativeTo?_down, Path.Proper] using further

/-- The position of a source has the name of the source. -/
theorem position_of_found (sound : tree.Sound) (found : Found tree source) (outputDirectory? : Option String) :
    (source.position outputDirectory?).names ≠ [] ∧
      (source.position outputDirectory?).fileName? = source.path.fileName? := by
  obtain ⟨some_, names, someBelow, below, last⟩ := spot_of_found sound found
  cases outputDirectory? with
  | none => exact ⟨some_, rfl⟩
  | some directory =>
    have position : source.position (some directory) = (Path.ofText directory).down names := by
      rw [Source.position, below]
      rfl
    rw [position]
    exact ⟨by simp [Path.down, someBelow], (Path.fileName?_down _ someBelow).trans last⟩

theorem stem?_position (sound : tree.Sound) (found : Found tree source) :
    (source.position outputDirectory?).stem? = source.path.stem? := by
  rw [Path.stem?, (position_of_found sound found _).2, Path.stem?]

theorem isDotted_position (sound : tree.Sound) (found : Found tree source) :
    (source.position outputDirectory?).isDotted = source.path.isDotted := by
  rw [Path.isDotted, (position_of_found sound found _).2, Path.isDotted]

/-- Below an output directory a position lies as the spot does. -/
theorem parent_position (sound : tree.Sound) (found : Found tree source) (directory : String) :
    ∃ names, (source.spot (some directory)).parent = ⟨.above 0, names⟩ ∧
      (source.position (some directory)).parent = (Path.ofText directory).down names := by
  obtain ⟨-, names, someBelow, below, -⟩ := spot_of_found sound found
  refine ⟨names.dropLast, by rw [Source.spot, below, Path.parent], ?_⟩
  rw [Source.position, below]
  exact Path.parent_down _ someBelow

/-- **Two destinations are one** exactly if their spots are in one directory and differ at most in their extensions. -/
theorem destination_eq_iff (sound : tree.Sound) (found : Found tree first) (foundToo : Found tree second)
    (plain : first.path.isDotted = false) (plainToo : second.path.isDotted = false) (outputDirectory? : Option String)
    (target : Target) :
    first.destination outputDirectory? target = second.destination outputDirectory? target ↔
      (first.spot outputDirectory?).parent = (second.spot outputDirectory?).parent ∧
        first.path.stem? = second.path.stem? := by
  rw [destination_eq, destination_eq, Path.withExtension_eq_iff (position_of_found sound found _).1
    (position_of_found sound foundToo _).1 ((isDotted_position sound found).trans plain)
    ((isDotted_position sound foundToo).trans plainToo), stem?_position sound found, stem?_position sound foundToo]
  cases outputDirectory? with
  | none => rfl
  | some directory =>
    obtain ⟨names, spot, position⟩ := parent_position sound found directory
    obtain ⟨namesToo, spotToo, positionToo⟩ := parent_position sound foundToo directory
    rw [spot, spotToo, position, positionToo, Path.down_inj]
    simp

/-- The place of a destination, by its directory and its name. -/
theorem landing_destination (sound : tree.Sound) (named : tree.Named) (found : Found tree source)
    (plain : source.path.isDotted = false) {stem : String} (stems : source.path.stem? = some stem) (target : Target) :
    tree.landing (source.destination outputDirectory? target).text =
      (source.position outputDirectory?).parent.place tree.location ++ [stem ++ "." ++ target.extension] := by
  obtain ⟨properPath, properBelow⟩ := proper_of_found named found
  have proper : (source.position outputDirectory?).Proper := by
    cases outputDirectory? with
    | none => exact properPath
    | some directory =>
      obtain ⟨-, names, -, below, -⟩ := spot_of_found sound found
      rw [Source.position, below]
      rw [below] at properBelow
      exact (Path.proper_ofText directory).down properBelow
  rw [destination_eq]
  exact Path.landing_withExtension tree proper ((stem?_position sound found).trans stems)
    ((isDotted_position sound found).trans plain) (by cases target <;> decide) (by cases target <;> decide)

/-- **Two texts go to one file** exactly if the spots lead into one directory and differ at most in their extensions. -/
theorem landing_eq_iff (sound : tree.Sound) (named : tree.Named) (found : Found tree first) (foundToo : Found tree second)
    (plain : first.path.isDotted = false) (plainToo : second.path.isDotted = false) (outputDirectory? : Option String)
    (target : Target) :
    tree.landing (first.destination outputDirectory? target).text =
        tree.landing (second.destination outputDirectory? target).text ↔
      (first.spot outputDirectory?).parent.place tree.location = (second.spot outputDirectory?).parent.place tree.location ∧
        first.path.stem? = second.path.stem? := by
  obtain ⟨stem, stems⟩ := Path.exists_stem (spot_of_found sound found).1
  obtain ⟨stemToo, stemsToo⟩ := Path.exists_stem (spot_of_found sound foundToo).1
  have directories : (first.position outputDirectory?).parent.place tree.location =
        (second.position outputDirectory?).parent.place tree.location ↔
      (first.spot outputDirectory?).parent.place tree.location =
        (second.spot outputDirectory?).parent.place tree.location := by
    cases outputDirectory? with
    | none => rfl
    | some directory =>
      obtain ⟨names, spot, position⟩ := parent_position sound found directory
      obtain ⟨namesToo, spotToo, positionToo⟩ := parent_position sound foundToo directory
      rw [spot, spotToo, position, positionToo, Path.place_down, Path.place_down, Path.place, Path.place]
      simp
  rw [landing_destination sound named found plain stems, landing_destination sound named foundToo plainToo stemsToo, stems,
    stemsToo, ← directories]
  constructor
  · intro same
    obtain ⟨directory, last⟩ := List.append_inj' same rfl
    exact ⟨directory, by rw [Path.stem_inj (List.cons.inj last).1]⟩
  · rintro ⟨directory, stem⟩
    rw [directory, Option.some.inj stem]

/-! ### Sources below directories -/

/-- Names of sources with one stem are one. -/
theorem eq_of_isName {name other : String} (isSource : Source.isName name = true) (isSourceToo : Source.isName other = true)
    (stems : (Path.cutName name).1 = (Path.cutName other).1) : name = other := by
  have whole : ∀ {name : String}, Source.isName name = true → name = (Path.cutName name).1 ++ "." ++ Source.extension := by
    intro name isSource
    exact Path.eq_of_cutName (Prod.ext rfl (eq_of_beq isSource))
  rw [whole isSource, whole isSourceToo, stems]

/-- A source that lies below a directory: its base, and the names on the way down from there. -/
theorem path_of_below (found : Found tree source) (below : source.base?.isSome = true) :
    ∃ base names, source.base? = some base ∧ source.path = base.down names ∧ source.placeBelow = ⟨.above 0, names⟩ ∧
      ∃ name, source.path.fileName? = some name ∧ Source.isName name = true := by
  cases found with
  | named => cases below
  | @below input files names _ _ isSource =>
    have some_ : names ≠ [] := by
      rintro rfl
      cases isSource
    refine ⟨_, names, rfl, rfl, by simp [Source.placeBelow, Path.relativeTo?_down], ?_⟩
    rw [Path.fileName?_down _ some_]
    exact (Option.any_eq_true _ _).mp isSource

/-- Sources that lie below directories have one name if they have one stem, and so do their spots. -/
theorem exists_name_of_below (sound : tree.Sound) (found : Found tree first) (foundToo : Found tree second)
    (below : first.base?.isSome = true) (belowToo : second.base?.isSome = true)
    (stems : first.path.stem? = second.path.stem?) (outputDirectory? : Option String) :
    ∃ name, first.spot outputDirectory? = (first.spot outputDirectory?).parent.down [name] ∧
      second.spot outputDirectory? = (second.spot outputDirectory?).parent.down [name] := by
  have spots : ∀ {source : Source}, Found tree source →
      (source.spot outputDirectory?).fileName? = source.path.fileName? := by
    intro source found
    obtain ⟨-, names, -, below, last⟩ := spot_of_found sound found
    cases outputDirectory? with
    | none => rfl
    | some directory =>
      rw [Source.spot, below]
      exact last
  obtain ⟨-, -, -, -, -, name, last, isName⟩ := path_of_below found below
  obtain ⟨-, -, -, -, -, other, lastToo, isNameToo⟩ := path_of_below foundToo belowToo
  rw [Path.stem?, Path.stem?, last, lastToo] at stems
  obtain rfl : name = other := eq_of_isName isName isNameToo (Option.some.inj stems)
  exact ⟨name, Path.eq_down_of_fileName? ((spots found).trans last), Path.eq_down_of_fileName? ((spots foundToo).trans lastToo)⟩

/-- Sources that lie below one base are one if they lie there at one place. -/
theorem path_eq_of_placeBelow (found : Found tree first) (foundToo : Found tree second)
    (below : first.base?.isSome = true) (belowToo : second.base?.isSome = true) (bases : first.base? = second.base?)
    (places : first.placeBelow.place tree.location = second.placeBelow.place tree.location) :
    first.path = second.path := by
  obtain ⟨base, names, is, path, place, -⟩ := path_of_below found below
  obtain ⟨baseToo, namesToo, isToo, pathToo, placeToo, -⟩ := path_of_below foundToo belowToo
  rw [is, isToo] at bases
  rw [place, placeToo] at places
  rw [path, pathToo, Option.some.inj bases, List.append_cancel_left places]

/-- **Sources that lie below directories have destinations of their own** beside themselves, and below an output directory
if they have one base. -/
theorem destination_ne_of_below (sound : tree.Sound) (found : Found tree first) (foundToo : Found tree second)
    (plain : first.path.isDotted = false) (plainToo : second.path.isDotted = false) (target : Target)
    (below : first.base?.isSome = true) (belowToo : second.base?.isSome = true)
    (together : outputDirectory? = none ∨ first.base? = second.base?) (differ : first.path ≠ second.path) :
    first.destination outputDirectory? target ≠ second.destination outputDirectory? target := by
  intro same
  obtain ⟨parents, stems⟩ := (destination_eq_iff sound found foundToo plain plainToo outputDirectory? target).mp same
  obtain ⟨name, down, downToo⟩ := exists_name_of_below sound found foundToo below belowToo stems outputDirectory?
  have spots : first.spot outputDirectory? = second.spot outputDirectory? := by rw [down, downToo, parents]
  cases outputDirectory? with
  | none => exact differ spots
  | some directory =>
    have bases := together.resolve_left (Option.some_ne_none directory)
    exact differ (path_eq_of_placeBelow found foundToo below belowToo bases (congrArg (Path.place tree.location) spots))

/-- **They have files of their own**, too: only a source that is there by two paths has its text written twice. -/
theorem place_eq_of_below (sound : tree.Sound) (named : tree.Named) (found : Found tree first)
    (foundToo : Found tree second) (plain : first.path.isDotted = false) (plainToo : second.path.isDotted = false)
    (target : Target) (below : first.base?.isSome = true) (belowToo : second.base?.isSome = true)
    (together : outputDirectory? = none ∨ first.base? = second.base?)
    (same : tree.landing (first.destination outputDirectory? target).text =
      tree.landing (second.destination outputDirectory? target).text) :
    tree.landing first.path.text = tree.landing second.path.text := by
  obtain ⟨directories, stems⟩ := (landing_eq_iff sound named found foundToo plain plainToo outputDirectory? target).mp same
  obtain ⟨name, down, downToo⟩ := exists_name_of_below sound found foundToo below belowToo stems outputDirectory?
  have spots : (first.spot outputDirectory?).place tree.location = (second.spot outputDirectory?).place tree.location := by
    rw [down, downToo, Path.place_down, Path.place_down, directories]
  cases outputDirectory? with
  | none =>
    rw [Path.landing_text tree (proper_of_found named found).1, Path.landing_text tree (proper_of_found named foundToo).1]
    exact spots
  | some directory =>
    have bases := together.resolve_left (Option.some_ne_none directory)
    rw [path_eq_of_placeBelow found foundToo below belowToo bases spots]

end Spots

/-! ### The sources of a command -/

/-- **When destinations meet.** Among the sources of a command, no two have one path. Two of them have one destination
exactly if their spots are in one directory and differ at most in their extensions, and their texts go to one file exactly
if the spots lead so. Sources that lie below named directories have destinations of their own, and files of their own unless
they are one file themselves, without an output directory, or if they were found under one and the same directory. -/
theorem destinations_meet_iff (options : CompileOptions) {session : Session} (sound : session.tree.Sound)
    (named : session.tree.Named) {sources : List Source}
    (collected : (runIn (Source.collect options.inputs) session).1 = .ok sources) :
    sources.Pairwise fun first second =>
      first.path ≠ second.path ∧ (first.path.isDotted = false → second.path.isDotted = false →
        (options.destination first = options.destination second ↔
          (first.spot options.outputDirectory?).parent = (second.spot options.outputDirectory?).parent ∧
            first.path.stem? = second.path.stem?) ∧
        (options.place session.tree first = options.place session.tree second ↔
          (first.spot options.outputDirectory?).parent.place session.tree.location =
              (second.spot options.outputDirectory?).parent.place session.tree.location ∧
            first.path.stem? = second.path.stem?) ∧
        (first.base?.isSome = true → second.base?.isSome = true →
          options.outputDirectory? = none ∨ first.base? = second.base? →
          options.destination first ≠ options.destination second ∧
            (options.place session.tree first = options.place session.tree second →
              session.tree.landing first.path.text = session.tree.landing second.path.text))) := by
  have found := found_of_collect collected
  refine (sorted_of_collect collected).imp_of_mem fun {first second} member memberToo earlier => ?_
  have here := found first member
  have there := found second memberToo
  have differ := Path.ne_of_before earlier
  refine ⟨differ, fun plain plainToo => ⟨?_, ?_, fun below belowToo together => ⟨?_, ?_⟩⟩⟩
  · exact destination_eq_iff sound here there plain plainToo _ _
  · exact landing_eq_iff sound named here there plain plainToo _ _
  · exact destination_ne_of_below sound here there plain plainToo _ below belowToo together differ
  · exact place_eq_of_below sound named here there plain plainToo _ below belowToo together

/-- Written below a directory of their own, two sources of one name meet, since each lies directly below its base. -/
theorem destinations_meet_iff_twins :
    (bothTo "out" .javaScript).destination ⟨⟨.above 0, ["app", "a.derw"]⟩, some ⟨.above 0, ["app"]⟩⟩ =
      (bothTo "out" .javaScript).destination ⟨⟨.above 0, ["lib", "a.derw"]⟩, some ⟨.above 0, ["lib"]⟩⟩ := by
  have collected : (runIn (Source.collect (bothTo "out" .javaScript).inputs) twins).1 = .ok twinSources := rfl
  have named : twins.tree.Named := by
    unfold FileTree.Named
    decide
  have pairs := destinations_meet_iff (bothTo "out" .javaScript) sound_twins named collected
  rw [twinSources, List.map_cons, List.map_cons, List.map_nil, List.pairwise_pair] at pairs
  exact ((pairs.2 (by decide) (by decide)).1).mpr (by decide)

/-- **Two sources can have one destination**, where they were found under different directories, and the text of one is
lost. -/
theorem destination_shared :
    (runIn (Source.collect (bothTo "out" .javaScript).inputs) twins).1 = .ok twinSources ∧
      (twinSources.map Source.path).Nodup ∧
      twinSources.map (bothTo "out" .javaScript).destination = [⟨.above 0, ["out", "a.js"]⟩, ⟨.above 0, ["out", "a.js"]⟩] ∧
      (runIn (bothTo "out" .javaScript).run twins).2.tree.read "out/a.js" = .ok "const y = 2;\n" :=
  ⟨rfl, by decide, by decide, by decide +kernel⟩

/-! ### Sources that stay -/

/-- The name of a destination has the extension of the target. -/
theorem landing_ne_of_extension {tree : FileTree} {source other : Source} (sound : tree.Sound) (named : tree.Named)
    (found : Found tree source) (foundToo : Found tree other) (plain : other.path.isDotted = false)
    {outputDirectory? : Option String} {target : Target}
    (foreign : source.path.fileName?.bind Path.extensionOf? ≠ some target.extension) :
    tree.landing (other.destination outputDirectory? target).text ≠ tree.landing source.path.text := by
  obtain ⟨stem, stems⟩ := Path.exists_stem (spot_of_found sound foundToo).1
  obtain ⟨proper, -⟩ := proper_of_found named found
  obtain ⟨properToo, -⟩ := proper_of_found named foundToo
  have last : source.path.fileName? = some (source.path.names.getLast (spot_of_found sound found).1) :=
    List.getLast?_eq_some_getLast _
  rw [landing_destination sound named foundToo plain stems, Path.landing_text tree proper,
    Path.eq_down_of_fileName? last, Path.place_down]
  intro same
  have name := (List.cons.inj (List.append_inj' same rfl).2).1
  have notEmpty : stem ≠ "" := by
    obtain ⟨whole, lastToo, rfl⟩ := Option.map_eq_some_iff.mp stems
    exact Path.cutName_ne_empty (properToo whole (List.mem_of_getLast? lastToo)).1
  have flat : '.' ∉ target.extension.toList := by
    cases target <;> decide
  refine foreign ?_
  rw [last, Option.bind_some, ← name, Path.extensionOf?, Path.cutName_append notEmpty flat]

/-- **No source is damaged** where none has the extension of the target: sources below directories are safe unless they are
written in their canonical layout. -/
theorem all_sources_kept (options : CompileOptions) {session : Session} (sound : session.tree.Sound)
    (named : session.tree.Named) {sources : List Source}
    (collected : (runIn (Source.collect options.inputs) session).1 = .ok sources)
    (plain : ∀ source ∈ sources, source.path.isDotted = false)
    (foreign : ∀ source ∈ sources, source.path.fileName?.bind Path.extensionOf? ≠ some options.target.extension)
    {source : Source} (member : source ∈ sources) {place : List String} {contents : Contents}
    (here : session.tree.find source.path.text = .ok (place, .file contents)) :
    (runIn options.run session).2.tree.find source.path.text = .ok (place, .file contents) := by
  have found := found_of_collect collected
  obtain ⟨rfl, -⟩ := find_ok here
  have frame : Frame {other | other ≠ session.tree.landing source.path.text} session.tree
      (runIn options.run session).2.tree :=
    frame_run sound collected fun other among _ => landing_ne_of_extension sound named (found source member)
      (found other among) (plain other among) (foreign source member)
  exact find_of_frame frame here fun absurd_ => absurd_ rfl

end DerwLang.CommandLine
