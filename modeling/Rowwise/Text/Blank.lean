/-!
# Rowwise.Text.Blank — white space and trimming

Blanks are the characters with the standard's White_Space property.  Trimming drops them at both ends of a text.
-/

namespace Rowwise.Text

/-- True for the twenty-five characters of the White_Space property. -/
def isBlank (c : Char) : Bool :=
  let n := c.toNat
  (9 ≤ n && n ≤ 13) || n == 0x20 || n == 0x85 || n == 0xA0 || n == 0x1680 || (0x2000 ≤ n && n ≤ 0x200A) ||
    n == 0x2028 || n == 0x2029 || n == 0x202F || n == 0x205F || n == 0x3000

/-- Every character that core counts as white space is blank. -/
theorem isBlank_of_isWhitespace {c : Char} (h : c.isWhitespace = true) : isBlank c = true := by
  simp only [Char.isWhitespace, Bool.or_eq_true, decide_eq_true_eq] at h
  rcases h with ((rfl | rfl) | rfl) | rfl <;> decide

/-- The text without the blanks in front. -/
def trimStart (cs : List Char) : List Char := cs.dropWhile isBlank

/-- The text without the blanks at its end. -/
def trimEnd (cs : List Char) : List Char := (cs.reverse.dropWhile isBlank).reverse

/-- The text without the blanks at both ends. -/
def trim (cs : List Char) : List Char := trimEnd (trimStart cs)

/-- The lower case of the letters A to Z; every other character stays. -/
def lowerAscii (cs : List Char) : List Char := cs.map Char.toLower

/-- The upper case of the letters a to z; every other character stays. -/
def upperAscii (cs : List Char) : List Char := cs.map Char.toUpper

/-- True if two texts differ at most in the case of the letters A to Z. -/
def sameIgnoringCase (a b : List Char) : Bool := lowerAscii a == lowerAscii b

end Rowwise.Text
