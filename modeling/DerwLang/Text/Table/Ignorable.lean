/-
**The code points that can be left unshown.**

The derived Unicode property `Default_Ignorable_Code_Point`: joiners, selectors and fillers, among them the letters
that stand for a missing part of a syllable. They leave no trace on a page, so quoted text names them by number.
-/

import DerwLang.Text.Range

namespace DerwLang.Text

/-- The code points with the property `Default_Ignorable_Code_Point`. -/
def ignorableRanges : CodeRanges :=
  [(0xAD, 0xAD), (0x34F, 0x34F), (0x61C, 0x61C), (0x115F, 0x1160), (0x17B4, 0x17B5),
   (0x180B, 0x180F), (0x200B, 0x200F), (0x202A, 0x202E), (0x2060, 0x206F), (0x3164, 0x3164),
   (0xFE00, 0xFE0F), (0xFEFF, 0xFEFF), (0xFFA0, 0xFFA0), (0xFFF0, 0xFFF8), (0x1BCA0, 0x1BCA3),
   (0x1D173, 0x1D17A), (0xE0000, 0xE0FFF)]

end DerwLang.Text
