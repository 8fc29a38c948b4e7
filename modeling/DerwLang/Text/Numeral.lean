/-
**Numerals.**

A numeral is a run of ASCII digits, perhaps with a point and more digits, perhaps with an exponent. A point needs
no digits after it, an exponent does.
-/

import DerwLang.Text.Lines

namespace DerwLang.Text

/-- One digit at least, and nothing else. -/
def isDigits (chars : List Char) : Bool :=
  !chars.isEmpty && chars.all Char.isDigit

/-- Digits, perhaps after a sign. -/
def isSignedDigits : List Char → Bool
  | '+' :: rest => isDigits rest
  | '-' :: rest => isDigits rest
  | chars => isDigits chars

/-- Nothing, or a whole exponent. -/
def isExponent : List Char → Bool
  | [] => true
  | c :: rest => (c == 'e' || c == 'E') && isSignedDigits rest

/-- What may follow the digits in front: a point with its digits, and an exponent. -/
def isNumeralTail : List Char → Bool
  | '.' :: rest => isExponent (rest.dropWhile Char.isDigit)
  | chars => isExponent chars

/-- A numeral without a sign. -/
def isNumeralChars (chars : List Char) : Bool :=
  chars.head?.any Char.isDigit && isNumeralTail (chars.dropWhile Char.isDigit)

/-- A numeral, perhaps with a minus in front. -/
def isNumeral (text : String) : Bool :=
  match text.toList with
  | '-' :: rest => isNumeralChars rest
  | chars => isNumeralChars chars

end DerwLang.Text
