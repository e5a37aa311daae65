import CssGuard.Text.Ranges

/-!
# Blank characters

The characters that count as white space around a reference, and the trimming of a text.

- `isBlank`: the white space property, the four separators `U+001C` to `U+001F` included
- `strip`: a text without the blanks at its two ends
-/

namespace CssGuard.Text

/-- The characters with the white space property. -/
def blankRanges : Ranges := [
  (0x9, 0xd), (0x1c, 0x20), (0x85, 0x85), (0xa0, 0xa0), (0x1680, 0x1680),
  (0x2000, 0x200a), (0x2028, 0x2029), (0x202f, 0x202f), (0x205f, 0x205f),
  (0x3000, 0x3000)]

/-- A character that counts as white space. -/
def isBlank (c : Char) : Bool :=
  blankRanges.contains c

/-- A text without its leading and trailing blanks. -/
def strip (t : Text) : Text :=
  (((t.dropWhile isBlank).reverse).dropWhile isBlank).reverse

end CssGuard.Text
