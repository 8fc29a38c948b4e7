/-
**Taking lists apart.**

A list pattern becomes statements that bind its names and reach the body of its branch. Names after the first
part stand for any number of elements, gaps. Where the only gap is the last part, one destructuring does
(`positional`). Otherwise the parts are peeled off from left to right (`sequential`): a gap before a tag or a
text is everything up to the first element that fits.
-/

import DerwLang.Ecma.Syntax
import DerwLang.Syntax.Expression

namespace DerwLang.Ecma

/-! ## Parts -/

/-- What an element has to be to match the part; names match anything. -/
def anchor? : ListPart → Option Anchor
  | .tag pattern => some (.tag pattern.tag)
  | .string text => some (.quoted text)
  | .formatString text => some (.template text)
  | .name _ | .emptyList => none

/-- The test that the part makes of an element. -/
def partTest? (part : ListPart) (subject : String) : Option ElementTest :=
  (anchor? part).map fun anchor => ⟨subject, anchor⟩

/-- The fields of a tag under their names. -/
def fieldBindings (pattern : TagPattern) (subject : String) : List Statement :=
  if pattern.fields.isEmpty then [] else [.bindFields pattern.fields subject]

/-- What the part binds of an element. -/
def partBindings (part : ListPart) (subject : String) : List Statement :=
  match part with
  | .tag pattern => fieldBindings pattern subject
  | _ => []

/-- The name of the element that the part at an index matches. -/
def elementName (index : Nat) : ListPart → String
  | .name name => name
  | _ => "_" ++ toString index

/-- The part is a name. -/
def isName : ListPart → Bool
  | .name _ => true
  | _ => false

/-- The number of parts that stand for any number of elements: names after the first part. -/
def gapCount (parts : List ListPart) : Nat :=
  (parts.tail.filter isName).length

/-- The last part, and only it, is a gap. -/
def onlyFinalGap (parts : List ListPart) : Bool :=
  gapCount parts == 1 && parts.getLast?.any isName

/-- The number of elements that a list needs: one for every tag and text, and one for a name in front. -/
def requiredLength (parts : List ListPart) : Nat :=
  (parts.filter fun part => (anchor? part).isSome).length +
    (if parts.head?.any isName then 1 else 0)

/-! ## One destructuring -/

/-- The names of the elements that the parts match, from an index on. -/
def elementNames (index : Nat) : List ListPart → List String
  | [] => []
  | part :: rest => elementName index part :: elementNames (index + 1) rest

/-- The tests that the parts make of their elements, from an index on. -/
def elementTests (index : Nat) : List ListPart → List ElementTest
  | [] => []
  | part :: rest =>
    (partTest? part (elementName index part)).toList ++ elementTests (index + 1) rest

/-- What the parts bind of their elements, from an index on. -/
def elementBindings (index : Nat) : List ListPart → List Statement
  | [] => []
  | part :: rest => partBindings part (elementName index part) ++ elementBindings (index + 1) rest

/-- The parts that match one element each, and the name of all elements after them. -/
def splitLast (parts : List ListPart) : List ListPart × Option String :=
  match parts.getLast? with
  | some .emptyList => (parts.dropLast, none)
  | some (.name name) => (parts.dropLast, some name)
  | _ => (parts, none)

/-- The statements for a pattern whose only gap, if there is one, is its last part. -/
def positional (list : String) (parts : List ListPart) (body : List Statement) : List Statement :=
  let split := splitLast parts
  let taken :=
    if split.1.isEmpty && split.2.isNone then []
    else [.bindElements (elementNames 0 split.1) split.2 list]
  let bound := elementBindings 0 split.1 ++ body
  match elementTests 0 split.1 with
  | [] => taken ++ bound
  | tests => taken ++ [.guarded (.elements tests) bound]

/-! ## Part by part -/

/-- The name of what is left after the part at an index. -/
def restName (index : Nat) : String :=
  "_rest" ++ toString index

/-- The name of the index at which the part at an index was found. -/
def foundName (index : Nat) : String :=
  "_foundIndex" ++ toString index

/-- The name of the index that a search is at. -/
def cursorName (index : Nat) : String :=
  "_i" ++ toString index

/-- A gap before a part that an element has to pass, the part being at an index of the pattern, and what is done
after it. -/
def gapSearch (index : Nat) (gap list : String) (part : ListPart) (anchor : Anchor) (isLast : Bool)
    (next : List Statement) : List Statement :=
  let element := "_" ++ toString index
  let bindings := partBindings part element
  let bound :=
    if bindings.isEmpty then []
    else .bindElementAt element list (foundName index) :: bindings
  let rest := if isLast then [] else [.bindAfter (restName index) list (foundName index)]
  [.search (foundName index) (cursorName index) list anchor,
    .guarded (.isFound (foundName index))
      (.bindBefore gap list (foundName index) :: bound ++ rest ++ next)]

/-- One element off the front of a list, the part being at an index of the pattern, and what is done after it. -/
def peel (index : Nat) (list : String) (part : ListPart) (isLast : Bool) (next : List Statement) :
    List Statement :=
  let element := elementName index part
  let taken : Statement :=
    .bindElements [element] (if isLast then none else some (restName index)) list
  let statements :=
    match partTest? part element with
    | some test => [taken, .guarded (.elements [test]) (partBindings part element ++ next)]
    | none => taken :: next
  if index == 0 then statements else [.guarded (.notEmpty list) statements]

/-- The statements for the parts of a pattern from an index on, `list` being what is left of the list. -/
def sequential (index : Nat) (list : String) (body : List Statement) : List ListPart → List Statement
  | [] => body
  | .emptyList :: _ => [.guarded (.lengthIs list 0) body]
  | [.name name] => .bindName name list :: body
  | .name name :: part :: rest =>
    match index, anchor? part with
    | index + 1, some anchor =>
      gapSearch (index + 2) name list part anchor rest.isEmpty
        (sequential (index + 3) (restName (index + 2)) body rest)
    | index, _ =>
      peel index list (.name name) false (sequential (index + 1) (restName index) body (part :: rest))
  | part :: rest =>
    peel index list part rest.isEmpty (sequential (index + 1) (restName index) body rest)

/-! ## Whole patterns -/

/-- The statements for a list pattern. -/
def listPattern (list : String) (parts : List ListPart) (body : List Statement) : List Statement :=
  let endsEmpty := parts.getLast? == some .emptyList
  let length := requiredLength parts
  let condition : Condition :=
    if endsEmpty && gapCount parts == 0 then .lengthIs list length else .lengthAtLeast list length
  let inner :=
    if gapCount parts == 0 || onlyFinalGap parts then positional list parts body
    else sequential 0 list body parts
  [.guarded condition inner]

end DerwLang.Ecma
