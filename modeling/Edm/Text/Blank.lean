import Edm.Text.Range

/-!
# Blank characters

The characters with the property White_Space, and the four separators U+001C to U+001F.  `Blank.trim`
removes them from both ends of a list of characters.
-/

namespace Edm

namespace Blank

/-- The blank code points. -/
def ranges : Ranges :=
  [(0x9, 0xD), (0x1C, 0x20), (0x85, 0x85), (0xA0, 0xA0), (0x1680, 0x1680), (0x2000, 0x200A), (0x2028, 0x2029),
   (0x202F, 0x202F), (0x205F, 0x205F), (0x3000, 0x3000)]

/-- Whether a character is blank. -/
def isBlank (c : Char) : Bool := ranges.holds c.toNat

/-- A list of characters without the blank ones at its ends. -/
def trim (cs : List Char) : List Char := ((cs.dropWhile isBlank).reverse.dropWhile isBlank).reverse

end Blank

end Edm
