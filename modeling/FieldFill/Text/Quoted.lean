import FieldFill.Text.Blank
import FieldFill.Text.HiddenTable

/-!
# Quoted texts

A text in double quotes, as messages show it. Double quotes and backslashes get a backslash, the
common control characters have short escapes, and every hidden character is written as its code
point in braces. Single quotes stand for themselves.
-/

namespace FieldFill

def isHidden (c : Char) : Bool :=
  (decide (c.toNat < 0x20) || decide (0x7F ≤ c.toNat)) && inRanges hiddenRanges c.toNat

/-- The code point of a hidden character in lower-case hexadecimal, in braces. -/
def codeEscape (c : Char) : Text :=
  ['\\', 'u', '\x7b'] ++ Nat.toDigits 16 c.toNat ++ ['\x7d']

def quotedChar (c : Char) : Text :=
  match c with
  | '\x00' => ['\\', '0']
  | '\t' => ['\\', 't']
  | '\r' => ['\\', 'r']
  | '\n' => ['\\', 'n']
  | '\"' => ['\\', '\"']
  | '\\' => ['\\', '\\']
  | _ => if isHidden c then codeEscape c else [c]

def quoted (text : Text) : Text :=
  '\"' :: text.flatMap quotedChar ++ ['\"']

end FieldFill
