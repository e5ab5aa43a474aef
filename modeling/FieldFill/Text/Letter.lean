import FieldFill.Text.Blank
import FieldFill.Text.LetterTable

/-!
# Letters, numbers and words

Character classes of the Unicode standard. ASCII is decided directly, so that closed terms over
ASCII evaluate without the tables.

* `isLetter` — the Alphabetic property.
* `isAlphanumeric` — a letter, or a number of any kind.
* `isWord` — what `\w` stands for in a pattern: letters, marks, decimal digits, connecting
  punctuation (the underscore among it) and the two joiners.
-/

namespace FieldFill

def isLetter (c : Char) : Bool :=
  c.isAlpha || (decide (0x80 ≤ c.toNat) && inRanges letterRanges c.toNat)

def isAlphanumeric (c : Char) : Bool :=
  isLetter c || c.isDigit || (decide (0x80 ≤ c.toNat) && inRanges numberRanges c.toNat)

def isWord (c : Char) : Bool :=
  isLetter c || c.isDigit || c = '_' ||
    (decide (0x80 ≤ c.toNat) && inRanges wordMarkRanges c.toNat)

/-! ## Names -/

def startsName (c : Char) : Bool :=
  c = '_' || isLetter c

def continuesName (c : Char) : Bool :=
  c = '_' || isAlphanumeric c

/-- The longest name at the start of a text, empty when there is none, and what follows it. -/
def leadingName : Text → Text × Text
  | [] => ([], [])
  | c :: rest =>
    if startsName c then (c :: rest.takeWhile continuesName, rest.dropWhile continuesName)
    else ([], c :: rest)

theorem leadingName_append (text : Text) : (leadingName text).1 ++ (leadingName text).2 = text := by
  cases text with
  | nil => rfl
  | cons c rest =>
    by_cases h : startsName c
    · simp [leadingName, h]
    · simp [leadingName, h]

end FieldFill
