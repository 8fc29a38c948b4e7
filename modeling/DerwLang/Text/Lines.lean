/-
**Lines, trimming and splitting.**

A text is cut at its line feeds; a carriage return directly before a line feed belongs to the line end, and a
last line counts only when it holds something. `isBlankLine` tells the lines that layout leaves empty.
-/

import DerwLang.Text.Class

namespace DerwLang.Text

/-! ## Lines -/

/-- The lines of a text, without their ends. -/
def linesOf : List Char → List (List Char)
  | [] => []
  | '\n' :: rest => [] :: linesOf rest
  | '\r' :: '\n' :: rest => [] :: linesOf rest
  | c :: rest =>
    match linesOf rest with
    | [] => [[c]]
    | line :: more => (c :: line) :: more

/-- The lines of a text, without their ends. -/
def lines (text : String) : List String :=
  (linesOf text.toList).map String.ofList

/-- Lines joined by line feeds. -/
def unlines (texts : List String) : String :=
  String.intercalate "\n" texts

/-- The line holds nothing but blanks. -/
def isBlankLine (line : String) : Bool :=
  line.toList.all isBlank

/-! ## Trimming -/

/-- The characters without those at both ends that satisfy the test. -/
def trimWhere (test : Char → Bool) (chars : List Char) : List Char :=
  ((chars.dropWhile test).reverse.dropWhile test).reverse

/-- The text without the blanks at its ends. -/
def trim (text : String) : String :=
  String.ofList (trimWhere isBlank text.toList)

/-! ## Splitting -/

/-- The parts between the characters that satisfy the test; there is always at least one part. -/
def splitWhere (test : Char → Bool) : List Char → List (List Char)
  | [] => [[]]
  | c :: rest =>
    if test c then [] :: splitWhere test rest
    else
      match splitWhere test rest with
      | [] => [[c]]
      | part :: more => (c :: part) :: more

/-- The parts of a text between the occurrences of a character. -/
def splitAt (separator : Char) (text : String) : List String :=
  (splitWhere (· == separator) text.toList).map String.ofList

/-- The text starts with the given one. -/
def startsWith (text start : String) : Bool :=
  start.toList.isPrefixOf text.toList

/-- The text ends with the given one. -/
def endsWith (text ending : String) : Bool :=
  ending.toList.isSuffixOf text.toList

/-- One of the text's characters is the given one. -/
def hasChar (text : String) (c : Char) : Bool :=
  text.toList.contains c

/-- There is always at least one part. -/
theorem splitWhere_ne_nil (test : Char → Bool) (chars : List Char) : splitWhere test chars ≠ [] := by
  cases chars with
  | nil => simp [splitWhere]
  | cons c rest =>
    simp only [splitWhere]
    split
    · simp
    · split <;> simp

end DerwLang.Text
