/-
**The blank code points.**

The Unicode property `White_Space`: tab, line feed, vertical tab, form feed, carriage return, space, and the
spaces and separators beyond ASCII.
-/

import DerwLang.Text.Range

namespace DerwLang.Text

/-- The code points with the property `White_Space`. -/
def blankRanges : CodeRanges :=
  [(0x9, 0xD), (0x20, 0x20), (0x85, 0x85), (0xA0, 0xA0), (0x1680, 0x1680), (0x2000, 0x200A),
   (0x2028, 0x2029), (0x202F, 0x202F), (0x205F, 0x205F), (0x3000, 0x3000)]

end DerwLang.Text
