import FieldFill.Lexical.Scan

/-!
# The bracket that closes

From an opening bracket to the one that closes it, over strings and comments. The search starts at
depth zero, so it ends at the first closing bracket that brings the depth back there.

* `closingFrom?` — the text up to the closing bracket and the text from it on, scanned from a state.
* `toClosing` — the same for a whole text, with the reason when nothing closes.
* `closingAt` — the byte position of the closing bracket for an opening one at a byte position.
-/

namespace FieldFill

/-- Cuts a text at the first closing bracket in code that brings the depth to zero. `opened` tells
whether a bracket has been opened before. -/
def closingFrom? (s : State) (offset : Nat) (opened : Bool) : Text → Option (Text × Text)
  | [] => none
  | c :: rest =>
    let (region, next) := s.step offset c rest
    if region = .code && isCloser c && opened && next.depth = 0 then some ([], c :: rest)
    else
      let opened := opened || region = .code && isOpener c
      (closingFrom? next (offset + c.utf8Size) opened rest).map fun (before, after) =>
        (c :: before, after)

/-- The text from an opening bracket to just before the closing one, and the text from there on. -/
def toClosing (text : Text) : Except SignatureFault (Text × Text) :=
  match closingFrom? .start 0 false text with
  | some parts => .ok parts
  | none => .error ((fault? text).getD (.unterminatedNesting 1 0))

/-- The byte position of the bracket that closes the one at `opening`. It is `none` when `opening`
is not between two characters of the text. -/
def closingAt (text : Text) (opening : Nat) : Option (Except SignatureFault Nat) :=
  (splitAt? text opening).map fun (_, tail) =>
    match toClosing tail with
    | .ok (enclosed, _) => .ok (opening + byteLength enclosed)
    | .error fault => .error (fault.shift opening)

end FieldFill
