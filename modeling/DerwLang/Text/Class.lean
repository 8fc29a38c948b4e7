/-
**Character classes.**

Names, blanks and capitals are told apart by Unicode properties. ASCII characters are decided by their
intervals at once, all others by the tables:

* `isBlank`: white space, what separates tokens and what trimming removes;
* `isAlphabetic`, `isAlphanumeric`: how a name starts and how it goes on;
* `isUppercase`: what makes a name capitalised;
* `isPrintable`: what quoted text shows as it is.
-/

import DerwLang.Text.Table.Alphabetic
import DerwLang.Text.Table.Blank
import DerwLang.Text.Table.Extending
import DerwLang.Text.Table.Ignorable
import DerwLang.Text.Table.Numeric
import DerwLang.Text.Table.Unprintable
import DerwLang.Text.Table.Uppercase

namespace DerwLang.Text

/-- White space, line ends included. -/
def isBlank (c : Char) : Bool :=
  blankRanges.contains c.toNat

/-- A letter of any script. -/
def isAlphabetic (c : Char) : Bool :=
  if c.toNat < 128 then c.isAlpha else alphabeticRanges.contains c.toNat

/-- A letter or a number of any script. -/
def isAlphanumeric (c : Char) : Bool :=
  if c.toNat < 128 then c.isAlphanum
  else alphabeticRanges.contains c.toNat || numericRanges.contains c.toNat

/-- A capital letter of any script. -/
def isUppercase (c : Char) : Bool :=
  if c.toNat < 128 then c.isUpper else uppercaseRanges.contains c.toNat

/-- A character that shows by itself: neither without a printed form, nor a mark on the one before it, nor one that
can be left unshown. -/
def isPrintable (c : Char) : Bool :=
  if c.toNat < 128 then 32 ≤ c.toNat && c.toNat < 127
  else !unprintableRanges.contains c.toNat && !extendingRanges.contains c.toNat
    && !ignorableRanges.contains c.toNat

/-- The first character of the name is a capital. -/
def isCapitalised (name : String) : Bool :=
  match name.toList with
  | [] => false
  | c :: _ => isUppercase c

/-- What core takes for white space is blank. -/
theorem isBlank_of_isWhitespace {c : Char} (white : c.isWhitespace = true) : isBlank c = true := by
  simp only [Char.isWhitespace, Bool.or_eq_true, decide_eq_true_eq] at white
  rcases white with ((rfl | rfl) | rfl) | rfl <;> decide

/-- Every letter is alphanumeric. -/
theorem isAlphanumeric_of_isAlphabetic {c : Char} (letter : isAlphabetic c = true) :
    isAlphanumeric c = true := by
  unfold isAlphabetic at letter
  unfold isAlphanumeric
  split at letter <;> simp_all [Char.isAlphanum]

end DerwLang.Text
