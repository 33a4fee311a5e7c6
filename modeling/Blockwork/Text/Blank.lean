/-!
The characters that may stand around a numeral without being part of it.
-/

namespace Blockwork.Text

/-- White space of every script: tabs, line ends, and the spaces of each width. -/
def isSpace (c : Char) : Bool :=
  let n := c.toNat
  (0x09 ≤ n && n ≤ 0x0D) || n == 0x20 || n == 0x85 || n == 0xA0 || n == 0x1680 ||
    (0x2000 ≤ n && n ≤ 0x200A) || n == 0x2028 || n == 0x2029 || n == 0x202F ||
    n == 0x205F || n == 0x3000

/-- White space, or the byte order mark. -/
def isBlank (c : Char) : Bool := isSpace c || c.toNat == 0xFEFF

/-- Removes what satisfies `p` from the front and the back. -/
def trimBoth (p : Char → Bool) (cs : List Char) : List Char :=
  ((cs.dropWhile p).reverse.dropWhile p).reverse

/-- Removes blanks from both ends. -/
def trimBlanks (cs : List Char) : List Char := trimBoth isBlank cs

end Blockwork.Text
