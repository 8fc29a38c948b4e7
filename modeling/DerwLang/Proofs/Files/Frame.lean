/-
**What a change of a file tree leaves as it is.**

* `landing`: the place that a path leads to, from the names of the path alone; what is found on a path is found there
  (`find_ok`), and a file is written there (`placeForFile_ok`).
* `Sound`: what stands in a tree stands in a directory. The changes of a tree keep that.
* `Frame`: from one tree to another, directories stay, and files only change at some places. Making directories changes no
  file (`frame_createDirectories`), and writing changes the file at one place (`write_cases`).
* `find_of_frame`: a path that leads to a file leads to it afterwards, with its contents, if its place is none of those.
* `read_put_file`: where a file is written over, every other path is read as before, and what could not be read cannot be read
  for the same reason. Neither this nor `write_over` takes a sound tree.
-/

import DerwLang.CommandLine.FileTree
import Mathlib.Data.List.Basic
import Mathlib.Data.Set.Basic

namespace DerwLang.CommandLine.FileTree

/-! ### Places of paths -/

/-- One segment further: an empty one or a dot stays, a double dot goes up, and a name goes down. -/
def goOn (place : List String) (segment : String) : List String :=
  if segment == "" || segment == "." then place
  else if segment == ".." then place.dropLast
  else place ++ [segment]

/-- The place that a path leads to, whether anything stands there or not. -/
def landing (tree : FileTree) (path : String) : List String :=
  (Text.splitAt '/' path).foldl goOn (tree.origin path)

/-- The contents of the file at a place. -/
def fileAt? (tree : FileTree) (place : List String) : Option Contents :=
  match tree.entryAt? place with
  | some (.file contents) => some contents
  | _ => none

/-- What stands in a tree stands in a directory, and so does whoever works in it. -/
structure Sound (tree : FileTree) : Prop where
  within : ∀ {place : List String} {name : String} {entry : Entry},
    tree.entryAt? (place ++ [name]) = some entry → tree.entryAt? place = some .directory
  standing : tree.entryAt? tree.location = some .directory

section Finding

variable {tree : FileTree} {place found : List String} {segments : List String} {entry : Entry} {path : String}
  {contents : Contents}

theorem fileAt?_eq_some : tree.fileAt? place = some contents ↔ tree.entryAt? place = some (.file contents) := by
  unfold fileAt?
  split
  · rename_i other same
    rw [same]
    simp
  · rename_i noFile
    constructor
    · intro absurd_
      cases absurd_
    · exact fun same => absurd same (noFile contents)

theorem entryAt?_root : tree.entryAt? [] = some .directory := rfl

/-- The parent of a directory is a directory. -/
theorem Sound.dropLast (sound : tree.Sound) (directory : tree.entryAt? place = some .directory) :
    tree.entryAt? place.dropLast = some .directory := by
  rcases List.eq_nil_or_concat' place with rfl | ⟨above, name, rfl⟩
  · exact entryAt?_root
  · rw [List.dropLast_concat]
    exact sound.within directory

/-- Whoever starts on a path starts in a directory. -/
theorem Sound.origin (sound : tree.Sound) (path : String) : tree.entryAt? (tree.origin path) = some .directory := by
  unfold FileTree.origin
  split
  · exact entryAt?_root
  · exact sound.standing

/-- What is found stands where the segments lead. -/
theorem follow_ok (ok : tree.follow place segments = .ok (found, entry)) :
    found = segments.foldl goOn place ∧ tree.entryAt? found = some entry := by
  fun_induction FileTree.follow tree place segments with
  | case2 place other stands =>
    obtain ⟨rfl, rfl⟩ := Prod.mk.inj (Except.ok.inj ok)
    exact ⟨rfl, stands⟩
  | case5 place segment segments _ here step =>
    rw [List.foldl_cons, goOn, if_pos here]
    exact step ok
  | case6 place segment segments _ notHere up step =>
    rw [List.foldl_cons, goOn, if_neg notHere, if_pos up]
    exact step ok
  | case8 place segment segments _ notHere notUp _ step =>
    rw [List.foldl_cons, goOn, if_neg notHere, if_neg notUp]
    exact step ok
  | case1 | case3 | case4 | case7 => cases ok

/-- Following more segments is following the first ones, and then the others. -/
theorem follow_append {further : List String} (ok : tree.follow place segments = .ok (found, entry)) :
    tree.follow place (segments ++ further) = tree.follow found further := by
  fun_induction FileTree.follow tree place segments with
  | case2 place other stands =>
    obtain ⟨rfl, -⟩ := Prod.mk.inj (Except.ok.inj ok)
    rfl
  | case5 place segment segments stands here step =>
    rw [List.cons_append, FileTree.follow, stands]
    exact (if_pos here).trans (step ok)
  | case6 place segment segments stands notHere up step =>
    rw [List.cons_append, FileTree.follow, stands]
    exact (if_neg notHere).trans ((if_pos up).trans (step ok))
  | case8 place segment segments stands notHere notUp short step =>
    rw [List.cons_append, FileTree.follow, stands]
    exact (if_neg notHere).trans ((if_neg notUp).trans ((if_neg short).trans (step ok)))
  | case1 | case3 | case4 | case7 => cases ok

/-- **What is found on a path stands where the path leads.** -/
theorem find_ok (ok : tree.find path = .ok (found, entry)) :
    found = tree.landing path ∧ tree.entryAt? found = some entry := by
  unfold find segmentsOf at ok
  split at ok
  · cases ok
  · split at ok
    · cases ok
    · exact follow_ok ok

/-- One segment that leads to nothing is a name, and nothing stands there. -/
theorem follow_single_notFound (sound : tree.Sound) (stands : tree.entryAt? place = some entry) {segment : String}
    (missing : tree.follow place [segment] = .error .notFound) :
    tree.entryAt? place = some .directory ∧ goOn place segment = place ++ [segment] ∧
      tree.entryAt? (place ++ [segment]) = none := by
  rw [FileTree.follow, stands] at missing
  cases entry with
  | file => cases missing
  | directory =>
    dsimp only at missing
    split at missing
    · rw [FileTree.follow, stands] at missing
      cases missing
    · rename_i notHere
      split at missing
      · rw [FileTree.follow, sound.dropLast stands] at missing
        cases missing
      · rename_i notUp
        split at missing
        · cases missing
        · refine ⟨stands, by rw [goOn, if_neg notHere, if_neg notUp], ?_⟩
          rw [FileTree.follow] at missing
          split at missing
          · assumption
          · cases missing

/-- **A file is written where its path leads**, in a directory, and not in place of one. -/
theorem placeForFile_ok (sound : tree.Sound) (ok : tree.placeForFile path = .ok place) :
    place = tree.landing path ∧ tree.entryAt? place ≠ some .directory ∧
      ∃ above name, place = above ++ [name] ∧ tree.entryAt? above = some .directory := by
  have above : ∀ {contents : Contents}, tree.entryAt? place = some (.file contents) →
      ∃ above name, place = above ++ [name] ∧ tree.entryAt? above = some .directory := by
    intro contents stands
    rcases List.eq_nil_or_concat' place with rfl | ⟨above, name, rfl⟩
    · cases stands
    · exact ⟨above, name, rfl, sound.within stands⟩
  unfold placeForFile segmentsOf at ok
  split at ok
  · cases ok
  · split at ok
    · cases ok
    · simp only [bind, Except.bind] at ok
      split at ok
      · cases ok
      · rename_i other contents followed
        obtain rfl := Except.ok.inj ok
        obtain ⟨same, stands⟩ := follow_ok followed
        exact ⟨same, by simp [stands], above stands⟩
      · rename_i missing
        split at ok
        · cases ok
        · rename_i found followed
          obtain ⟨directory, entry⟩ := found
          obtain ⟨same, stands⟩ := follow_ok followed
          rcases List.eq_nil_or_concat' (Text.splitAt '/' path) with none | ⟨segments, last, cut⟩
          · rw [none, List.dropLast_nil] at followed
            rw [none, followed] at missing
            cases missing
          · rw [cut, List.dropLast_concat] at followed
            rw [cut, follow_append followed] at missing
            obtain ⟨isDirectory, name, nothing⟩ := follow_single_notFound sound stands missing
            have here : place = directory ++ [last] := by
              rw [cut, List.getLast?_concat] at ok
              exact (Except.ok.inj ok).symm
            refine ⟨?_, by simp [here, nothing], directory, last, here, isDirectory⟩
            rw [cut, List.dropLast_concat] at same
            rw [here, landing, cut, List.foldl_concat, ← same, name]
      · cases ok

end Finding

/-! ### Frames -/

/-- From one tree to another, directories stay, and files only change at some places. -/
structure Frame (changed : Set (List String)) (tree after : FileTree) : Prop where
  location : after.location = tree.location
  directories : ∀ {place : List String}, tree.entryAt? place = some .directory → after.entryAt? place = some .directory
  files : ∀ {place : List String}, place ∉ changed → after.fileAt? place = tree.fileAt? place

section Frames

variable {tree middle after : FileTree} {changed further : Set (List String)} {place found : List String} {path : String}
  {contents : Contents}

theorem Frame.refl (changed : Set (List String)) (tree : FileTree) : Frame changed tree tree :=
  ⟨rfl, fun directory => directory, fun _ => rfl⟩

theorem Frame.trans (first : Frame changed tree middle) (second : Frame changed middle after) :
    Frame changed tree after :=
  ⟨second.location.trans first.location, fun directory => second.directories (first.directories directory),
    fun outside => (second.files outside).trans (first.files outside)⟩

theorem Frame.mono (frame : Frame changed tree after) (part : changed ⊆ further) : Frame further tree after :=
  ⟨frame.location, frame.directories, fun outside => frame.files fun inside => outside (part inside)⟩

/-- Paths lead where they led. -/
theorem Frame.landing (frame : Frame changed tree after) (path : String) : after.landing path = tree.landing path := by
  rw [FileTree.landing, FileTree.landing, FileTree.origin, FileTree.origin, frame.location]

/-- **A path that leads to a file still leads to it**, if the file is none of those that changed. -/
theorem find_of_frame (frame : Frame changed tree after) (ok : tree.find path = .ok (place, .file contents))
    (outside : place ∉ changed) : after.find path = .ok (place, .file contents) := by
  have follows : ∀ start segments, tree.follow start segments = .ok (place, .file contents) →
      after.follow start segments = .ok (place, .file contents) := by
    intro start segments found
    fun_induction FileTree.follow tree start segments with
    | case2 start entry stands =>
      obtain ⟨rfl, rfl⟩ := Prod.mk.inj (Except.ok.inj found)
      have same := frame.files outside
      rw [fileAt?_eq_some.mpr stands] at same
      rw [FileTree.follow, fileAt?_eq_some.mp same]
    | case5 start segment segments stands here step =>
      rw [FileTree.follow, frame.directories stands]
      exact (if_pos here).trans (step found)
    | case6 start segment segments stands notHere up step =>
      rw [FileTree.follow, frame.directories stands]
      exact (if_neg notHere).trans ((if_pos up).trans (step found))
    | case8 start segment segments stands notHere notUp short step =>
      rw [FileTree.follow, frame.directories stands]
      exact (if_neg notHere).trans ((if_neg notUp).trans ((if_neg short).trans (step found)))
    | case1 | case3 | case4 | case7 => cases found
  unfold FileTree.find at ok ⊢
  cases cut : segmentsOf path with
  | error error =>
    rw [cut] at ok
    cases ok
  | ok segments =>
    rw [cut] at ok
    rw [FileTree.origin, frame.location]
    exact follows _ segments ok

/-- What can be read can still be read. -/
theorem read_of_frame (frame : Frame changed tree after) {text : String} (ok : tree.read path = .ok text)
    (outside : tree.landing path ∉ changed) : after.read path = .ok text := by
  unfold FileTree.read at ok
  split at ok
  · cases ok
  · cases ok
  · cases ok
  · rename_i place contents found
    obtain rfl := Except.ok.inj ok
    rw [FileTree.read, find_of_frame frame found ((find_ok found).1 ▸ outside)]

/-! ### Changes -/

/-- What is put into a directory leaves the tree sound, unless it takes the place of a directory. -/
theorem Sound.put (sound : tree.Sound) {above : List String} {name : String}
    (directory : tree.entryAt? above = some .directory) {entry : Entry}
    (fits : entry = .directory ∨ tree.entryAt? (above ++ [name]) ≠ some .directory) :
    (tree.put (above ++ [name]) entry).Sound := by
  have below : above ++ [name] ≠ [] := by simp
  have stays : ∀ {place : List String}, tree.entryAt? place = some .directory →
      (tree.put (above ++ [name]) entry).entryAt? place = some .directory := by
    intro place stands
    rw [entryAt?_put below]
    split
    · rename_i same
      rcases fits with rfl | other
      · rfl
      · exact absurd (same ▸ stands) other
    · exact stands
  refine ⟨fun {place inner other} stands => ?_, stays sound.standing⟩
  rw [entryAt?_put below] at stands
  split at stands
  · rename_i same
    obtain ⟨rfl, -⟩ := List.append_inj' same rfl
    exact stays directory
  · exact stays (sound.within stands)

theorem frame_put_directory (nothing : tree.entryAt? place = none) : Frame ∅ tree (tree.put place .directory) := by
  have below : place ≠ [] := by
    rintro rfl
    cases nothing
  refine ⟨rfl, fun {other} stands => ?_, fun {other} _ => ?_⟩
  · rw [entryAt?_put below]
    split
    · rfl
    · exact stands
  · unfold fileAt?
    rw [entryAt?_put below]
    by_cases same : other = place
    · rw [if_pos same, same, nothing]
    · rw [if_neg same]

theorem frame_put_file (below : place ≠ []) (other : tree.entryAt? place ≠ some .directory) (contents : Contents) :
    Frame {place} tree (tree.put place (.file contents)) := by
  refine ⟨rfl, fun {directory} stands => ?_, fun {file} outside => ?_⟩
  · have apart : directory ≠ place := fun same => other (same ▸ stands)
    rw [entryAt?_put below, if_neg apart]
    exact stands
  · have apart : file ≠ place := outside
    unfold fileAt?
    rw [entryAt?_put below, if_neg apart]

/-- Making a way changes no file. -/
theorem frame_makeWay (sound : tree.Sound) (stands : tree.entryAt? place = some .directory) (segments : List String) :
    Frame ∅ tree (tree.makeWay place segments).2 ∧ (tree.makeWay place segments).2.Sound := by
  fun_induction FileTree.makeWay tree place segments with
  | case1 tree place => exact ⟨.refl _ _, sound⟩
  | case2 tree place segment segments _ step => exact step sound stands
  | case3 tree place segment segments _ _ step => exact step sound (sound.dropLast stands)
  | case4 => exact ⟨.refl _ _, sound⟩
  | case5 tree place segment segments _ _ _ next nothing step =>
    have frame := frame_put_directory nothing
    have made : (tree.put next .directory).entryAt? next = some .directory := by
      rw [entryAt?_put (by simp [next]), if_pos rfl]
    obtain ⟨later, keeps⟩ := step (sound.put stands (.inl rfl)) made
    exact ⟨frame.trans later, keeps⟩
  | case6 tree place segment segments _ _ _ next directory step => exact step sound directory
  | case7 => exact ⟨.refl _ _, sound⟩

/-- **Making directories changes no file**, whether it is refused or not. -/
theorem frame_createDirectories (sound : tree.Sound) (path : String) :
    Frame ∅ tree (tree.createDirectories path).2 ∧ (tree.createDirectories path).2.Sound := by
  unfold createDirectories
  split
  · exact ⟨.refl _ _, sound⟩
  · exact frame_makeWay sound (sound.origin path) _

/-- **Writing is refused, and changes nothing, or changes the file where its path leads.** -/
theorem write_cases (sound : tree.Sound) (path text : String) :
    (∃ error, tree.write path text = (.error error, tree)) ∨
      ∃ after, tree.write path text = (.ok (), after) ∧ Frame {tree.landing path} tree after ∧ after.Sound ∧
        after.fileAt? (tree.landing path) = some (.text text) := by
  unfold FileTree.write
  cases placed : tree.placeForFile path with
  | error error => exact .inl ⟨error, rfl⟩
  | ok place =>
    obtain ⟨rfl, other, above, name, split, directory⟩ := placeForFile_ok sound placed
    have below : tree.landing path ≠ [] := by simp [split]
    refine .inr ⟨_, rfl, frame_put_file below other _, ?_, ?_⟩
    · rw [split] at other ⊢
      exact sound.put directory (.inr other)
    · rw [fileAt?_eq_some, entryAt?_put below, if_pos rfl]

end Frames

/-! ### Writing over files -/

/-- The place of what is found on a path. -/
def place? (tree : FileTree) (path : String) : Option (List String) :=
  (tree.find path).toOption.map Prod.fst

section Overwriting

variable {tree : FileTree} {place : List String} {old : Contents} {path text : String}

/-- What can be read is the text of a file. -/
theorem exists_place_of_read (ok : tree.read path = .ok text) :
    ∃ place, tree.place? path = some place ∧ tree.entryAt? place = some (.file (.text text)) := by
  unfold FileTree.read at ok
  split at ok
  · cases ok
  · cases ok
  · cases ok
  · rename_i place contents found
    obtain rfl := Except.ok.inj ok
    exact ⟨place, by rw [place?, found]; rfl, (find_ok found).2⟩

/-- **Following a path when a file has other contents**: it leads where it led, or fails as it did. -/
theorem follow_put_file (stands : tree.entryAt? place = some (.file old)) (contents : Contents) (start segments : List String) :
    (tree.put place (.file contents)).follow start segments =
      (tree.follow start segments).map fun found => (found.1, if found.1 = place then .file contents else found.2) := by
  have below : place ≠ [] := by
    rintro rfl
    cases stands
  have directory : ∀ {other}, tree.entryAt? other = some .directory →
      (tree.put place (.file contents)).entryAt? other = some .directory := by
    intro other isDirectory
    rw [entryAt?_put below, if_neg, isDirectory]
    rintro rfl
    rw [stands] at isDirectory
    cases isDirectory
  have nothing : ∀ {other}, tree.entryAt? other = none → (tree.put place (.file contents)).entryAt? other = none := by
    intro other isNone
    rw [entryAt?_put below, if_neg, isNone]
    rintro rfl
    rw [stands] at isNone
    cases isNone
  fun_induction FileTree.follow tree start segments with
  | case1 start missing => rw [FileTree.follow, nothing missing]; rfl
  | case2 start entry here =>
    rw [FileTree.follow, entryAt?_put below]
    by_cases same : start = place
    · simp [same, Except.map]
    · simp [same, here, Except.map]
  | case3 start segment segments missing => rw [FileTree.follow, nothing missing]; rfl
  | case4 start segment segments other isFile =>
    rw [FileTree.follow, entryAt?_put below]
    by_cases same : start = place
    · simp [same, Except.map]
    · simp [same, isFile, Except.map]
  | case5 start segment segments isDirectory here step =>
    rw [FileTree.follow, directory isDirectory]
    exact (if_pos here).trans step
  | case6 start segment segments isDirectory notHere up step =>
    rw [FileTree.follow, directory isDirectory]
    exact (if_neg notHere).trans ((if_pos up).trans step)
  | case7 start segment segments isDirectory notHere notUp long =>
    rw [FileTree.follow, directory isDirectory]
    exact (if_neg notHere).trans ((if_neg notUp).trans (if_pos long))
  | case8 start segment segments isDirectory notHere notUp short step =>
    rw [FileTree.follow, directory isDirectory]
    exact (if_neg notHere).trans ((if_neg notUp).trans ((if_neg short).trans step))

theorem find_put_file (stands : tree.entryAt? place = some (.file old)) (contents : Contents) (path : String) :
    (tree.put place (.file contents)).find path =
      (tree.find path).map fun found => (found.1, if found.1 = place then .file contents else found.2) := by
  unfold FileTree.find
  cases cut : segmentsOf path with
  | error error => rfl
  | ok segments => exact follow_put_file stands contents _ segments

/-- Paths lead where they led. -/
theorem place?_put_file (stands : tree.entryAt? place = some (.file old)) (contents : Contents) (path : String) :
    (tree.put place (.file contents)).place? path = tree.place? path := by
  rw [place?, place?, find_put_file stands]
  cases tree.find path <;> rfl

/-- **Files at other places are read as before**, or fail to be as before. -/
theorem read_put_file (stands : tree.entryAt? place = some (.file old)) (contents : Contents)
    (elsewhere : tree.place? path ≠ some place) : (tree.put place (.file contents)).read path = tree.read path := by
  rw [FileTree.read, FileTree.read, find_put_file stands]
  rw [place?] at elsewhere
  cases found : tree.find path with
  | error error => rfl
  | ok here =>
    have apart : here.1 ≠ place := fun same => elsewhere (by rw [found, ← same]; rfl)
    simp [Except.map, apart]

/-- A file that is there is written over. -/
theorem write_over (here : tree.place? path = some place) (stands : tree.entryAt? place = some (.file old)) (text : String) :
    tree.write path text = (.ok (), tree.put place (.file (.text text))) := by
  have placed : tree.placeForFile path = .ok place := by
    unfold place? FileTree.find at here
    unfold FileTree.placeForFile
    cases cut : segmentsOf path with
    | error error => simp [cut, bind, Except.bind, Except.toOption] at here
    | ok segments =>
      simp only [cut, bind, Except.bind] at here ⊢
      cases followed : tree.follow (tree.origin path) segments with
      | error error => simp [followed, Except.toOption] at here
      | ok found =>
        obtain rfl : found.1 = place := by simpa [followed, Except.toOption] using here
        have entry : found.2 = .file old := Option.some.inj ((follow_ok followed).2.symm.trans stands)
        obtain ⟨_, _⟩ := found
        simp_all
  rw [FileTree.write, placed]

end Overwriting

end DerwLang.CommandLine.FileTree
