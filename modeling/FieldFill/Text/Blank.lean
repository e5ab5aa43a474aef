import FieldFill.Text.Basic

/-!
# Blanks

A blank is a character with the White_Space property. It covers every character that core calls
whitespace, and also the Unicode spaces; zero-width characters are no blanks.
-/

namespace FieldFill

/-- The code points with the White_Space property, first and last of each range. -/
def blankRanges : List (Nat × Nat) :=
  [(0x9, 0xD), (0x20, 0x20), (0x85, 0x85), (0xA0, 0xA0), (0x1680, 0x1680), (0x2000, 0x200A),
   (0x2028, 0x2029), (0x202F, 0x202F), (0x205F, 0x205F), (0x3000, 0x3000)]

/-- Whether a code point lies in one of the ranges. -/
def inRanges (ranges : List (Nat × Nat)) (n : Nat) : Bool :=
  ranges.any fun (first, last) => decide (first ≤ n) && decide (n ≤ last)

def isBlank (c : Char) : Bool :=
  inRanges blankRanges c.toNat

/-- A space or a tab: what indentation is made of. -/
def isIndent (c : Char) : Bool :=
  c = ' ' || c = '\t'

def trimStart (text : Text) : Text :=
  text.dropWhile isBlank

def trimEnd (text : Text) : Text :=
  (text.reverse.dropWhile isBlank).reverse

/-- A text without the blanks at its two ends. -/
def trim (text : Text) : Text :=
  trimEnd (trimStart text)

def allBlank (text : Text) : Bool :=
  text.all isBlank

end FieldFill
