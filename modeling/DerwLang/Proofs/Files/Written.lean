/-
**Written paths lead where their names lead.**

* `splitAt_intercalate`: a text made of segments with slashes between them is cut into these segments;
* `landing_text`: a path whose names are names of entries leads, as it is written, to its place;
* `proper_ofText`: every path that is read from a text has such names.
-/

import DerwLang.Proofs.Files.Paths

namespace DerwLang

open CommandLine (FileTree)

/-! ### Segments -/

section Segments

variable {test : Char → Bool}

/-- Characters at which nothing is cut go to the front of the first part. -/
theorem splitWhere_append {part : List Char} (uncut : ∀ c ∈ part, test c = false) (rest : List Char) :
    Text.splitWhere test (part ++ rest) =
      (part ++ (Text.splitWhere test rest).headD []) :: (Text.splitWhere test rest).tail := by
  have some_ := Text.splitWhere_ne_nil test rest
  obtain ⟨first, more, parts⟩ := List.exists_cons_of_ne_nil some_
  induction part with
  | nil => simp [parts]
  | cons c part step =>
    rw [List.forall_mem_cons] at uncut
    rw [List.cons_append, Text.splitWhere, uncut.1, step uncut.2]
    rfl

/-- Nothing is left in a part at which it would be cut. -/
theorem uncut_of_mem_splitWhere {chars part : List Char} (member : part ∈ Text.splitWhere test chars) :
    ∀ c ∈ part, test c = false := by
  induction chars generalizing part with
  | nil =>
    obtain rfl := List.mem_singleton.mp member
    exact fun _ absurd_ => absurd absurd_ List.not_mem_nil
  | cons c rest step =>
    rw [Text.splitWhere] at member
    split at member
    · rcases List.mem_cons.mp member with rfl | later
      · exact fun _ absurd_ => absurd absurd_ List.not_mem_nil
      · exact step later
    · rename_i stays
      split at member
      · obtain rfl := List.mem_singleton.mp member
        simpa using stays
      · rename_i first more parts
        rw [parts] at step
        rcases List.mem_cons.mp member with rfl | later
        · exact List.forall_mem_cons.mpr ⟨by simpa using stays, step List.mem_cons_self⟩
        · exact step (List.mem_cons_of_mem _ later)

/-- **Segments are cut apart where they were put together.** -/
theorem splitAt_intercalate {segments : List String} (some_ : segments ≠ [])
    (flat : ∀ segment ∈ segments, '/' ∉ segment.toList) : Text.splitAt '/' ("/".intercalate segments) = segments := by
  have uncut : ∀ {segment : String}, '/' ∉ segment.toList → ∀ c ∈ segment.toList, (c == '/') = false := by
    intro segment slash c member
    exact beq_false_of_ne fun same => slash (same ▸ member)
  have chars : Text.splitWhere (· == '/') (List.intercalate ['/'] (segments.map String.toList)) =
      segments.map String.toList := by
    induction segments with
    | nil => exact absurd rfl some_
    | cons segment rest step =>
      obtain ⟨slash, others⟩ := List.forall_mem_cons.mp flat
      cases rest with
      | nil =>
        have cut := splitWhere_append (uncut slash) []
        simpa [Text.splitWhere] using cut
      | cons next more =>
        rw [List.map_cons, List.map_cons, List.intercalate_cons_cons, List.append_assoc, splitWhere_append (uncut slash),
          List.cons_append, List.nil_append, Text.splitWhere, if_pos (by rfl)]
        rw [← List.map_cons, step (List.cons_ne_nil _ _) others]
        simp
  rw [Text.splitAt, String.toList_intercalate]
  show (Text.splitWhere _ (List.intercalate ['/'] _)).map _ = _
  rw [chars, List.map_map]
  exact (List.map_congr_left fun _ _ => String.ofList_toList).trans (List.map_id _)

theorem flat_of_mem_splitAt {text segment : String} (member : segment ∈ Text.splitAt '/' text) : '/' ∉ segment.toList := by
  obtain ⟨part, inside, rfl⟩ := List.mem_map.mp member
  rw [String.toList_ofList]
  intro slash
  exact absurd (uncut_of_mem_splitWhere inside '/' slash) (by simp)

end Segments

/-! ### Names -/

/-- The name can be that of an entry of a directory: on a path it leads down. -/
def IsEntryName (name : String) : Prop :=
  name ≠ "" ∧ name ≠ "." ∧ name ≠ ".." ∧ '/' ∉ name.toList

instance (name : String) : Decidable (IsEntryName name) :=
  inferInstanceAs (Decidable (_ ∧ _ ∧ _ ∧ _))

/-- All names in a tree are names of entries. -/
def CommandLine.FileTree.Named (tree : FileTree) : Prop :=
  ∀ entry ∈ tree.entries, ∀ name ∈ entry.1, IsEntryName name

/-- So are those of the files below a place. -/
theorem named_of_listed {tree : FileTree} (named : tree.Named) {text : String} {files : List (List String)}
    (listed : tree.filesBelow text = .ok files) {names : List String} (member : names ∈ files) :
    ∀ name ∈ names, IsEntryName name := by
  have below : ∀ {place names further : List String}, FileTree.namesBelow? place names = some further →
      ∀ name ∈ further, name ∈ names := by
    intro place names further found
    fun_induction FileTree.namesBelow? place names with
    | case1 => cases found
    | case2 =>
      obtain rfl := Option.some.inj found
      exact fun _ member => member
    | case3 a place b names _ step => exact fun name member => List.mem_cons_of_mem _ (step found name member)
    | case4 => cases found
  unfold FileTree.filesBelow at listed
  cases found : tree.find text with
  | error error =>
    rw [found] at listed
    cases listed
  | ok here =>
    rw [found] at listed
    obtain rfl := Except.ok.inj listed
    obtain ⟨⟨others, contents⟩, inside, rfl⟩ := List.mem_map.mp member
    obtain ⟨⟨place, entry⟩, stands, same⟩ := List.mem_filterMap.mp inside
    cases entry with
    | directory => cases same
    | file other =>
      obtain ⟨further, down, same⟩ := Option.map_eq_some_iff.mp same
      obtain ⟨rfl, -⟩ := Prod.mk.inj same
      exact fun name among => named _ stands name (below down name among)

namespace Path

/-- The names of a path are names of entries. -/
def Proper (path : Path) : Prop :=
  ∀ name ∈ path.names, IsEntryName name

section Proper

variable {path : Path}

theorem Proper.up (proper : path.Proper) : path.up.Proper := by
  obtain ⟨_ | levels, names⟩ := path
  · exact fun name member => proper name ((List.dropLast_sublist _).subset member)
  · cases names with
    | nil => exact fun name member => absurd member List.not_mem_nil
    | cons first rest => exact fun name member => proper name ((List.dropLast_sublist _).subset member)

theorem Proper.parent (proper : path.Proper) : path.parent.Proper :=
  fun name member => proper name ((List.dropLast_sublist _).subset member)

theorem Proper.down (proper : path.Proper) {names : List String} (further : ∀ name ∈ names, IsEntryName name) :
    (path.down names).Proper := by
  intro name member
  rcases List.mem_append.mp member with inside | later
  · exact proper name inside
  · exact further name later

/-- **Paths that are read have proper names.** -/
theorem proper_ofText (text : String) : (ofText text).Proper := by
  have fold : ∀ (segments : List String) (start : Path), start.Proper →
      (∀ segment ∈ segments, '/' ∉ segment.toList) → (segments.foldl enter start).Proper := by
    intro segments
    induction segments with
    | nil => exact fun _ proper _ => proper
    | cons segment rest step =>
      intro start proper flat
      obtain ⟨slash, others⟩ := List.forall_mem_cons.mp flat
      refine step (start.enter segment) ?_ others
      unfold enter
      split
      · exact proper
      · rename_i goesOn
        split
        · exact proper.up
        · rename_i goesDown
          refine proper.down fun name member => ?_
          obtain rfl := List.mem_singleton.mp member
          simp only [Bool.or_eq_true, beq_iff_eq, not_or] at goesOn
          exact ⟨goesOn.1, goesOn.2, by simpa using goesDown, slash⟩
  refine fold _ _ ?_ fun segment member => flat_of_mem_splitAt member
  split <;> exact fun name member => absurd member List.not_mem_nil

/-! ### Written paths -/

theorem foldl_goOn_names {names : List String} (proper : ∀ name ∈ names, IsEntryName name) (place : List String) :
    names.foldl FileTree.goOn place = place ++ names := by
  induction names generalizing place with
  | nil => simp
  | cons name rest step =>
    obtain ⟨⟨notEmpty, notDot, notDots, -⟩, others⟩ := List.forall_mem_cons.mp proper
    have down : FileTree.goOn place name = place ++ [name] := by
      simp [FileTree.goOn, notEmpty, notDot, notDots]
    rw [List.foldl_cons, down, step others, List.append_assoc, List.singleton_append]

theorem foldl_goOn_up (levels : Nat) (place : List String) :
    (List.replicate levels "..").foldl FileTree.goOn place = List.dropLast^[levels] place := by
  induction levels generalizing place with
  | zero => rfl
  | succ levels step =>
    rw [List.replicate_succ, List.foldl_cons, step, Function.iterate_succ_apply]
    rfl

/-- A text that starts with a segment does not start with a slash. -/
theorem startsWith_intercalate {segment : String} (notEmpty : segment ≠ "") (slash : '/' ∉ segment.toList)
    (rest : List String) : Text.startsWith ("/".intercalate (segment :: rest)) "/" = false := by
  have some_ : segment.toList ≠ [] := by simpa using notEmpty
  obtain ⟨c, others, chars⟩ := List.exists_cons_of_ne_nil some_
  have differ : c ≠ '/' := by
    rintro rfl
    exact slash (by simp [chars])
  rw [Text.startsWith, String.toList_intercalate, List.map_cons, chars]
  cases rest with
  | nil => simpa [List.isPrefixOf] using Ne.symm differ
  | cons next more =>
    rw [List.map_cons, List.intercalate_cons_cons]
    simpa [List.isPrefixOf] using Ne.symm differ

/-- **A path leads, as it is written, to its place.** -/
theorem landing_text (tree : FileTree) (proper : path.Proper) : tree.landing path.text = path.place tree.location := by
  obtain ⟨_ | levels, names⟩ := path
  · have start : tree.origin (text ⟨.root, names⟩) = [] := by
      refine if_pos ?_
      simp [text, Text.startsWith, String.toList_append]
    rw [FileTree.landing, start, place]
    cases names with
    | nil => rfl
    | cons name rest =>
      have joined : text ⟨.root, name :: rest⟩ = "/".intercalate ("" :: name :: rest) := by
        rw [text, ← String.toList_inj, String.toList_append, String.toList_intercalate, String.toList_intercalate,
          List.map_cons, List.map_cons, List.map_cons, List.intercalate_cons_cons]
        rfl
      have flat : ∀ segment ∈ "" :: name :: rest, '/' ∉ segment.toList :=
        List.forall_mem_cons.mpr ⟨by simp, fun segment member => (proper segment member).2.2.2⟩
      rw [joined, splitAt_intercalate (by simp) flat, List.foldl_cons]
      exact foldl_goOn_names proper []
  · have flat : ∀ segment ∈ List.replicate levels ".." ++ names, segment ≠ "" ∧ '/' ∉ segment.toList := by
      intro segment member
      rcases List.mem_append.mp member with up | name
      · rw [List.eq_of_mem_replicate up]
        decide
      · exact ⟨(proper segment name).1, (proper segment name).2.2.2⟩
    have fold : (List.replicate levels ".." ++ names).foldl FileTree.goOn tree.location =
        place tree.location ⟨.above levels, names⟩ := by
      rw [List.foldl_append, foldl_goOn_up, foldl_goOn_names proper]
      rfl
    rw [← fold, text]
    dsimp only
    cases segments : List.replicate levels ".." ++ names with
    | nil => rfl
    | cons segment rest =>
      rw [segments] at flat
      obtain ⟨first, -⟩ := List.forall_mem_cons.mp flat
      have start : tree.origin ("/".intercalate (segment :: rest)) = tree.location := by
        refine if_neg ?_
        simp [startsWith_intercalate first.1 first.2 rest]
      rw [FileTree.landing, start, splitAt_intercalate (by simp) fun other member => (flat other member).2]

/-! ### Extensions -/

/-- There is no slash in the stem of a proper name. -/
theorem Proper.flat_stem (proper : path.Proper) {stem : String} (named : path.stem? = some stem) : '/' ∉ stem.toList := by
  obtain ⟨name, last, same⟩ := Option.map_eq_some_iff.mp named
  obtain ⟨-, -, -, slash⟩ := proper name (List.mem_of_getLast? last)
  rcases cut : cutName name with ⟨first, _ | ending⟩
  all_goals
    rw [cut] at same
    obtain rfl : first = stem := same
  · rwa [← eq_of_uncut cut]
  · rw [eq_of_cutName cut, String.toList_append, String.toList_append, List.mem_append, List.mem_append] at slash
    exact fun inside => slash (.inl (.inl inside))

/-- **With another extension a proper path stays proper**, and leads into the directory it led into. -/
theorem landing_withExtension (tree : FileTree) (proper : path.Proper) {stem : String} (named : path.stem? = some stem)
    (plain : path.isDotted = false) {ending : String} (flat : '/' ∉ ending.toList) (long : 2 ≤ ending.toList.length) :
    tree.landing (path.withExtension ending).text = path.parent.place tree.location ++ [stem ++ "." ++ ending] := by
  have longer : (stem ++ "." ++ ending).toList.length = stem.toList.length + 1 + ending.toList.length := by
    rw [String.toList_append, String.toList_append, List.length_append, List.length_append]
    rfl
  have name : IsEntryName (stem ++ "." ++ ending) := by
    have differs : ∀ short : String, short.toList.length < 3 → stem ++ "." ++ ending ≠ short := by
      rintro short less same
      rw [← same, longer] at less
      omega
    refine ⟨differs _ (by decide), differs _ (by decide), differs _ (by decide), ?_⟩
    rw [String.toList_append, String.toList_append, List.mem_append, List.mem_append]
    rintro ((inStem | inDot) | inEnding)
    · exact proper.flat_stem named inStem
    · exact absurd inDot (by decide)
    · exact flat inEnding
  have whole : (path.withExtension ending).Proper := by
    rw [withExtension_eq named plain]
    exact proper.parent.down fun other member => List.mem_singleton.mp member ▸ name
  rw [landing_text tree whole, withExtension_eq named plain, place_down]

end Proper

end Path

end DerwLang
