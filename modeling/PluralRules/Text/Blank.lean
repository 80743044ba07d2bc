/-!
# White space

The characters that separate words, and what removing them from the ends of a text leaves. A text is
a `List Char` here and in every reader of the library; `String` appears only where a text enters or
leaves.

Blank are exactly the characters with the Unicode property `White_Space`. The zero-width space and
the byte order mark do not have it.
-/

namespace PluralRules.Text

/-- The blank characters, as ranges of code points that include both ends, in ascending order. -/
def blankRanges : List (Nat × Nat) :=
  [(0x09, 0x0D), (0x20, 0x20), (0x85, 0x85), (0xA0, 0xA0), (0x1680, 0x1680), (0x2000, 0x200A),
   (0x2028, 0x2029), (0x202F, 0x202F), (0x205F, 0x205F), (0x3000, 0x3000)]

/-- A character is blank when one of the ranges holds its code point. -/
def isBlank (c : Char) : Bool :=
  blankRanges.any fun (least, greatest) => least ≤ c.toNat && c.toNat ≤ greatest

/-- Drop the leading run of blanks. -/
def skipBlanks (s : List Char) : List Char := s.dropWhile isBlank

def trimEnd (s : List Char) : List Char := (s.reverse.dropWhile isBlank).reverse

def trim (s : List Char) : List Char := trimEnd (skipBlanks s)

end PluralRules.Text
