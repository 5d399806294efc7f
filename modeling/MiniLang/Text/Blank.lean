/-
White space: the characters with the Unicode property `White_Space`, and the
trimming of a line by them.
-/
namespace MiniLang

/-- The characters with the Unicode property `White_Space`, as closed ranges of
code points in ascending order. -/
def blankRanges : List (Nat × Nat) :=
  [(0x09, 0x0D), (0x20, 0x20), (0x85, 0x85), (0xA0, 0xA0), (0x1680, 0x1680),
    (0x2000, 0x200A), (0x2028, 0x2029), (0x202F, 0x202F), (0x205F, 0x205F),
    (0x3000, 0x3000)]

/-- Whether a character is white space. -/
def isBlank (c : Char) : Bool :=
  blankRanges.any fun range => range.1 ≤ c.toNat && c.toNat ≤ range.2

/-- Drop the longest end of a list whose members all pass the test. -/
def dropRightWhile {α : Type} (p : α → Bool) (l : List α) : List α :=
  (l.reverse.dropWhile p).reverse

/-- A line without the white space in front of it. -/
def trimLeft (line : List Char) : List Char :=
  line.dropWhile isBlank

/-- A line without the white space behind it. -/
def trimRight (line : List Char) : List Char :=
  dropRightWhile isBlank line

end MiniLang
