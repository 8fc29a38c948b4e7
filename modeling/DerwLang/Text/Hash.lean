/-
**The polynomial hash of a text.**

A text is hashed over its 16-bit units, `h * 31 + unit` in signed 32-bit arithmetic, and the absolute value of
the result can stand in a name. Characters beyond the basic plane count as their two surrogate units.
-/

namespace DerwLang.Text

/-- The 16-bit units of a character: itself, or a pair of surrogates. -/
def unitsOf (c : Char) : List Nat :=
  if c.toNat < 0x10000 then [c.toNat]
  else [0xD800 + (c.toNat - 0x10000) / 0x400, 0xDC00 + (c.toNat - 0x10000) % 0x400]

/-- The 16-bit units of a text. -/
def units (text : String) : List Nat :=
  text.toList.flatMap unitsOf

/-- The hash with one more unit: thirty-one times as much, as a shift less itself, and the unit. -/
def hashStep (h : Int32) (unit : Nat) : Int32 :=
  (h <<< 5) - h + Int32.ofNat unit

/-- The absolute value of the 32-bit polynomial of the text's units in 31. -/
def hash (text : String) : Nat :=
  ((units text).foldl hashStep 0).toInt.natAbs

end DerwLang.Text
