/-
**Names from paths.**

An import path names the module by its last segment: directories, quotes and extensions go, and what is left
is made an identifier by turning every other character into an underscore. `"./utils/string-helpers.derw"`
gives `string_helpers`.
-/

import DerwLang.Text.Lines

namespace DerwLang.Text

/-- The characters that stand in a name taken from a path. -/
def isNamePart (c : Char) : Bool :=
  c.isAlphanum || c == '_'

/-- The characters that part a path. -/
def isPathSeparator (c : Char) : Bool :=
  c == '/' || c == '\\'

/-- A segment that names something: not empty, and not one of the two dot segments. -/
def isNamingSegment (segment : List Char) : Bool :=
  segment != [] && segment != ['.'] && segment != ['.', '.']

/-- The last segment that names something, or else the whole path. -/
def lastSegment (path : List Char) : List Char :=
  (((splitWhere isPathSeparator path).filter isNamingSegment).getLast?).getD path

/-- The identifier that a path stands for. -/
def nameFromPath (path : String) : String :=
  let stem := (lastSegment (trimWhere (· == '"') path.toList)).takeWhile (· != '.')
  String.ofList (stem.map fun c => if isNamePart c then c else '_')

end DerwLang.Text
