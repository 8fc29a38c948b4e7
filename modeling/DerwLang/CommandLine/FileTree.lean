/-
**File trees as values.**

A tree knows what stands at each place, a place being the names on the way to it from the root. Places are
looked up as a file system does: segment by segment, and nothing lies below a file. Names and paths are of limited
length.

* `FileTree.find` follows a path to the entry at its end.
* **`entryAt?_put`**: an entry stands where it is put, and nothing else changes.
* `FileTree.write` and `FileTree.createDirectories` answer whether a change is refused, and give the tree after it.
* `FileTree.changes` lists the files that one tree has and another has not.

With two channels of printed lines a tree makes a `Session`, which is a host for commands.
-/

import DerwLang.CommandLine.Host

namespace DerwLang.CommandLine

/-- The contents of a file: text, or bytes that are no text. -/
inductive Contents
  | text (text : String)
  | binary (bytes : List Nat)
deriving DecidableEq, Repr

/-- What stands at a place. -/
inductive Entry
  | file (contents : Contents)
  | directory
deriving DecidableEq, Repr

/-- What stands at each place, and the place of the directory that one stands in. The root is always there. -/
structure FileTree where
  location : List String
  entries : List (List String × Entry)
deriving Repr

namespace FileTree

/-! ### Places -/

/-- What stands at a place. -/
def entryAt? (tree : FileTree) (place : List String) : Option Entry :=
  if place.isEmpty then some .directory else tree.entries.lookup place

/-- A table with an entry for a place, in the position of the one it had. -/
def putEntry (place : List String) (entry : Entry) :
    List (List String × Entry) → List (List String × Entry)
  | [] => [(place, entry)]
  | (other, old) :: entries =>
    if other == place then (place, entry) :: entries else (other, old) :: putEntry place entry entries

/-- The tree with an entry at a place. -/
def put (tree : FileTree) (place : List String) (entry : Entry) : FileTree :=
  { tree with entries := putEntry place entry tree.entries }

/-- Looking up in a table with an entry put into it. -/
theorem lookup_putEntry (place key : List String) (entry : Entry) (entries : List (List String × Entry)) :
    (putEntry place entry entries).lookup key =
      if key = place then some entry else entries.lookup key := by
  induction entries with
  | nil =>
    by_cases same : key = place
    · simp [putEntry, same]
    · simp [putEntry, List.lookup_cons, beq_false_of_ne same, same]
  | cons head entries ih =>
    obtain ⟨other, old⟩ := head
    by_cases found : other = place
    · subst found
      by_cases same : key = other
      · simp [putEntry, same]
      · simp [putEntry, List.lookup_cons, beq_false_of_ne same, same]
    · by_cases same : key = other
      · simp [putEntry, found, same]
      · simp [putEntry, List.lookup_cons, found, beq_false_of_ne same, ih]

/-- **An entry stands where it is put, and nothing else changes.** -/
theorem entryAt?_put {tree : FileTree} {place : List String} (below : place ≠ []) (key : List String)
    (entry : Entry) :
    (tree.put place entry).entryAt? key = if key = place then some entry else tree.entryAt? key := by
  by_cases root : key = []
  · subst root
    simp [FileTree.entryAt?, Ne.symm below]
  · simp [FileTree.entryAt?, put, root, lookup_putEntry]

/-- The place that a text with slashes starts from. -/
def origin (tree : FileTree) (path : String) : List String :=
  if Text.startsWith path "/" then [] else tree.location

/-- The number of bytes that the name of an entry can have. -/
def longestName : Nat := 255

/-- The number of bytes that a path can have. -/
def longestPath : Nat := 4095

/-- The segments of a path that is neither empty nor too long. -/
def segmentsOf (path : String) : Except FileError (List String) :=
  if path.isEmpty then .error .notFound
  else if path.utf8ByteSize > longestPath then .error .nameTooLong
  else .ok (Text.splitAt '/' path)

/-- The place at the end of the segments, starting from a place. Each segment is taken in a directory. -/
def follow (tree : FileTree) (place : List String) : List String → Except FileError (List String × Entry)
  | [] =>
    match tree.entryAt? place with
    | none => .error .notFound
    | some entry => .ok (place, entry)
  | segment :: segments =>
    match tree.entryAt? place with
    | none => .error .notFound
    | some (.file _) => .error .notADirectory
    | some .directory =>
      if segment == "" || segment == "." then tree.follow place segments
      else if segment == ".." then tree.follow place.dropLast segments
      else if segment.utf8ByteSize > longestName then .error .nameTooLong
      else tree.follow (place ++ [segment]) segments

/-- The place that a path leads to, and what stands there. -/
def find (tree : FileTree) (path : String) : Except FileError (List String × Entry) := do
  tree.follow (tree.origin path) (← segmentsOf path)

/-! ### Reading -/

/-- Whether a path leads to a file or to a directory. -/
def kindOf (tree : FileTree) (path : String) : Except FileError EntryKind :=
  (tree.find path).map fun found =>
    match found.2 with
    | .file _ => .file
    | .directory => .directory

/-- The text of the file that a path leads to. -/
def read (tree : FileTree) (path : String) : Except FileError String :=
  match tree.find path with
  | .error error => .error error
  | .ok (_, .directory) => .error .isADirectory
  | .ok (_, .file (.binary _)) => .error .notText
  | .ok (_, .file (.text text)) => .ok text

/-- The names that lead from a place to a place below it. -/
def namesBelow? : List String → List String → Option (List String)
  | _, [] => none
  | [], names => some names
  | a :: place, b :: names => if a == b then namesBelow? place names else none

/-- The files below a place with the names that lead to them. -/
def filesAt (tree : FileTree) (place : List String) : List (List String × Contents) :=
  tree.entries.filterMap fun entry =>
    match entry.2 with
    | .directory => none
    | .file contents => (namesBelow? place entry.1).map (·, contents)

/-- The names that lead to the files below a path. -/
def filesBelow (tree : FileTree) (path : String) : Except FileError (List (List String)) :=
  (tree.find path).map fun found => (tree.filesAt found.1).map (·.1)

/-! ### Changing -/

/-- The tree with a directory at the end of the segments, and with those on the way to it. Those on the way to a
refusal are there as well. -/
def makeWay (tree : FileTree) (place : List String) : List String → Except FileError Unit × FileTree
  | [] => (.ok (), tree)
  | segment :: segments =>
    if segment == "" || segment == "." then tree.makeWay place segments
    else if segment == ".." then tree.makeWay place.dropLast segments
    else if segment.utf8ByteSize > longestName then (.error .nameTooLong, tree)
    else
      let next := place ++ [segment]
      match tree.entryAt? next with
      | none => (tree.put next .directory).makeWay next segments
      | some .directory => tree.makeWay next segments
      | some (.file _) => (.error (if segments.isEmpty then .alreadyExists else .notADirectory), tree)

/-- The tree with a directory where a path leads. -/
def createDirectories (tree : FileTree) (path : String) : Except FileError Unit × FileTree :=
  match segmentsOf path with
  | .error error => (.error error, tree)
  | .ok segments => tree.makeWay (tree.origin path) segments

/-- The place of a file that a path leads to, or of a new one in a directory that is there. -/
def placeForFile (tree : FileTree) (path : String) : Except FileError (List String) := do
  let segments ← segmentsOf path
  match tree.follow (tree.origin path) segments with
  | .ok (_, .directory) => .error .isADirectory
  | .ok (place, .file _) => .ok place
  | .error .notFound =>
    let (directory, _) ← tree.follow (tree.origin path) segments.dropLast
    return directory ++ segments.getLast?.toList
  | .error error => .error error

/-- The tree with a text in the file that a path leads to. The directory of the file has to be there. -/
def write (tree : FileTree) (path text : String) : Except FileError Unit × FileTree :=
  match tree.placeForFile path with
  | .error error => (.error error, tree)
  | .ok place => (.ok (), tree.put place (.file (.text text)))

/-- The tree with a directory at a place, and with those on the way to it. -/
def addDirectory (tree : FileTree) (place : List String) : FileTree :=
  (List.range place.length).foldl (fun tree depth => tree.put (place.take (depth + 1)) .directory) tree

/-- The tree with a file at a place, and with the directories on the way to it. -/
def addFile (tree : FileTree) (place : List String) (contents : Contents) : FileTree :=
  (tree.addDirectory place.dropLast).put place (.file contents)

/-- The tree in which there is only a directory to stand in. -/
def standingIn (location : List String) : FileTree :=
  addDirectory ⟨location, []⟩ location

/-- The files below where one stands whose contents are not those of an earlier tree. -/
def changes (tree earlier : FileTree) : List (List String × Contents) :=
  (tree.filesAt tree.location).filter fun file =>
    earlier.entryAt? (earlier.location ++ file.1) != some (.file file.2)

end FileTree

/-! ### Sessions -/

/-- A file tree, and what has been printed on the two channels. -/
structure Session where
  tree : FileTree
  printed : String := ""
  reported : String := ""

namespace Session

/-- Looks at the tree. -/
def look {α : Type} (question : FileTree → α) : StateM Session α :=
  fun session => (question session.tree, session)

/-- Changes the tree. -/
def change {α : Type} (step : FileTree → α × FileTree) : StateM Session α :=
  fun session =>
    let (answer, tree) := step session.tree
    (answer, { session with tree := tree })

instance : Host (StateM Session) where
  currentDirectory := look fun tree => "/" ++ "/".intercalate tree.location
  kindOf path := look (·.kindOf path)
  filesBelow path := look (·.filesBelow path)
  read path := look (·.read path)
  write path text := change (·.write path text)
  createDirectories path := change (·.createDirectories path)
  print line := modify fun session => { session with printed := session.printed ++ line ++ "\n" }
  report line := modify fun session => { session with reported := session.reported ++ line ++ "\n" }

end Session

end DerwLang.CommandLine
