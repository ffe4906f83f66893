/-!
# Blanks and line ends

`isBlank` is the Unicode property `White_Space`.  `trimBlanks` drops such
characters from both ends of a text.  `isLineEnd` holds of the characters that
end a line.
-/

namespace StripePruning

/-- Whether a character has the property `White_Space`. -/
def isBlank (c : Char) : Bool :=
  let n := c.toNat
  (0x9 ≤ n && n ≤ 0xD) || n == 0x20 || n == 0x85 || n == 0xA0 || n == 0x1680 ||
    (0x2000 ≤ n && n ≤ 0x200A) || n == 0x2028 || n == 0x2029 || n == 0x202F ||
    n == 0x205F || n == 0x3000

/-- Whether a character ends a line. -/
def isLineEnd (c : Char) : Bool :=
  c = '\r' || c = '\n'

/-- A text without the blanks at its start. -/
def trimBlanksLeft (text : List Char) : List Char :=
  text.dropWhile isBlank

/-- A text without the blanks at either end. -/
def trimBlanks (text : List Char) : List Char :=
  (trimBlanksLeft (trimBlanksLeft text).reverse).reverse

end StripePruning
