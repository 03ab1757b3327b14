/-!
# White space

White space is what has the Unicode property `White_Space`. The table below lists these
characters as closed ranges of code points; everything in this library that asks for white space
asks this table, so a line feed, a no-break space and an ideographic space all count, while a
zero-width space does not.

## Main definitions

* `Text.blankRanges`: the table, in increasing order.
* `Text.isBlank`: membership of a character in the table.
* `Text.trimChars`: a text without the white space at either end.
-/

namespace MiniScheme.Text

/-- Closed ranges of code points with the property `White_Space`, in increasing order. -/
def blankRanges : List (Nat × Nat) :=
  [(0x09, 0x0D), (0x20, 0x20), (0x85, 0x85), (0xA0, 0xA0), (0x1680, 0x1680), (0x2000, 0x200A),
    (0x2028, 0x2029), (0x202F, 0x202F), (0x205F, 0x205F), (0x3000, 0x3000)]

/-- A character is blank if a range of the table holds its code point. -/
def isBlank (c : Char) : Bool :=
  blankRanges.any fun range => range.1 ≤ c.toNat && c.toNat ≤ range.2

/-- The characters of a text without the white space at either end. -/
def trimChars (cs : List Char) : List Char :=
  ((cs.dropWhile isBlank).reverse.dropWhile isBlank).reverse

end MiniScheme.Text
