/-! # Blank characters

The characters with the Unicode property `White_Space`, and the two things the
library does with them: a text is blank when it holds nothing else, and
trimming removes them from both ends.
-/

namespace Extraction.Text

/-- The characters with the Unicode property `White_Space`. -/
def isBlankChar (c : Char) : Bool :=
  let n := c.toNat
  (0x9 ≤ n && n ≤ 0xD) || n == 0x20 || n == 0x85 || n == 0xA0 || n == 0x1680 ||
    (0x2000 ≤ n && n ≤ 0x200A) || n == 0x2028 || n == 0x2029 || n == 0x202F ||
    n == 0x205F || n == 0x3000

/-- A text of blank characters only; the empty text is blank. -/
def isBlank (s : String) : Bool := s.toList.all isBlankChar

/-- Leading blank characters removed. -/
def trimLeft (s : List Char) : List Char := s.dropWhile isBlankChar

/-- Trailing blank characters removed. -/
def trimRight (s : List Char) : List Char := (trimLeft s.reverse).reverse

/-- Blank characters removed from both ends. -/
def trim (s : List Char) : List Char := trimRight (trimLeft s)

theorem trimLeft_cons_of_not_blank {c : Char} {s : List Char} (hc : isBlankChar c = false) :
    trimLeft (c :: s) = c :: s := by
  simp [trimLeft, hc]

end Extraction.Text
