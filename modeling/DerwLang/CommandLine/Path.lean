/-
**Clean paths.**

A path starts at the root, or some levels above the directory one stands in, and then goes down from name to
name. Empty segments, single dots and double dots that cancel a name have no place in this form, so that equal
paths are equal values.

* `Path.ofText` reads a text with slashes, one segment at a time; `Path.text` writes it again.
* `Path.join` goes on from the end of one path along another.
* `Path.relativeTo?` is the way from one path to another.
* `Path.before` orders paths name by name.
-/

import DerwLang.Text.Lines

namespace DerwLang

/-- Where a path starts: at the root, or a number of levels above the directory one stands in. -/
inductive Path.Start
  | root
  | above (levels : Nat)
deriving DecidableEq, Repr

/-- A place in a file system, as the names on the way down from where the path starts. -/
structure Path where
  start : Path.Start
  names : List String
deriving DecidableEq, Repr

namespace Path

/-! ### Reading and writing -/

/-- The directory one stands in. -/
def here : Path := ⟨.above 0, []⟩

/-- One level up. Nothing is above the root. -/
def up : Path → Path
  | ⟨.root, names⟩ => ⟨.root, names.dropLast⟩
  | ⟨.above levels, []⟩ => ⟨.above (levels + 1), []⟩
  | ⟨.above levels, name :: names⟩ => ⟨.above levels, (name :: names).dropLast⟩

/-- Down through further names. -/
def down (path : Path) (names : List String) : Path :=
  { path with names := path.names ++ names }

/-- One segment further: an empty one or a dot stays, a double dot goes up, and a name goes down. -/
def enter (path : Path) (segment : String) : Path :=
  if segment == "" || segment == "." then path
  else if segment == ".." then path.up
  else path.down [segment]

/-- The path that a text with slashes writes. -/
def ofText (text : String) : Path :=
  let start := if Text.startsWith text "/" then ⟨.root, []⟩ else here
  (Text.splitAt '/' text).foldl enter start

/-- The written form: slashes between the segments, and a dot for the directory one stands in. -/
def text (path : Path) : String :=
  match path.start with
  | .root => "/" ++ "/".intercalate path.names
  | .above levels =>
    match List.replicate levels ".." ++ path.names with
    | [] => "."
    | segments => "/".intercalate segments

/-! ### From one path to another -/

/-- The path along another one, from the end of this one. A path from the root starts anew. -/
def join (path further : Path) : Path :=
  match further.start with
  | .root => further
  | .above levels => (Nat.repeat up levels path).down further.names

/-- The way down from the place that two lists of names part at, after the levels up to it. -/
def wayBetween : List String → List String → Path
  | base, [] => ⟨.above base.length, []⟩
  | [], names => ⟨.above 0, names⟩
  | b :: base, name :: names =>
    if b == name then wayBetween base names else ⟨.above (base.length + 1), name :: names⟩

/-- The way to a path from a base. There is none out of a base that lies higher up than any name tells. -/
def relativeTo? (path base : Path) : Option Path :=
  match path.start, base.start with
  | .root, .root => some (wayBetween base.names path.names)
  | .root, .above _ => some path
  | .above _, .root => none
  | .above levels, .above baseLevels =>
    if levels < baseLevels then none
    else if levels == baseLevels then some (wayBetween base.names path.names)
    else some ⟨.above (base.names.length + (levels - baseLevels)), path.names⟩

/-- The directory that a path lies in. -/
def parent (path : Path) : Path :=
  { path with names := path.names.dropLast }

/-! ### Names of files -/

/-- The last name of a path, if it has one. -/
def fileName? (path : Path) : Option String :=
  path.names.getLast?

/-- A name cut at its last dot. A dot in front is part of the name and starts no extension. -/
def cutName (name : String) : String × Option String :=
  let reversed := name.toList.reverse
  match reversed.dropWhile (· != '.') with
  | _ :: c :: stem =>
    (String.ofList (c :: stem).reverse, some (String.ofList (reversed.takeWhile (· != '.')).reverse))
  | _ => (name, none)

/-- What stands after the last dot of a name. -/
def extensionOf? (name : String) : Option String :=
  (cutName name).2

/-- The same path with another extension on its last name. What is left of a name when its extension is taken off
has to be a name: two dots in front of an extension stay as they are, and lead a level up. -/
def withExtension (path : Path) (extension : String) : Path :=
  match path.fileName?.map cutName with
  | none => path
  | some (".", some _) => path.parent.up
  | some (stem, _) => path.parent.down [stem ++ "." ++ extension]

/-! ### Order -/

/-- One list of names stands before another: by the first name that differs, and the shorter one first. -/
def namesBefore : List String → List String → Bool
  | _, [] => false
  | [], _ :: _ => true
  | a :: names, b :: others => decide (a < b) || (a == b && namesBefore names others)

/-- One path stands before another: those from the root first, and a level up before any name. -/
def before (path other : Path) : Bool :=
  match path.start, other.start with
  | .root, .root => namesBefore path.names other.names
  | .root, .above _ => true
  | .above _, .root => false
  | .above levels, .above otherLevels =>
    if levels == otherLevels then namesBefore path.names other.names
    else if levels < otherLevels then path.names.isEmpty
    else !other.names.isEmpty

end Path

end DerwLang
