import FieldFill.Lexical.Scan
import FieldFill.Text.Blank

/-!
# Segments of a parameter list

A parameter list is cut at every comma in code outside of all brackets. A list always has at least
one segment; a trailing comma leaves an empty one at the end.

* `Segment.raw` — the text between two separating commas, untouched.
* `Segment.code` — that text without comments and without blanks at its ends.
* `segments` — the segments of a list, or what is wrong with it.
-/

namespace FieldFill

structure Segment where
  /-- The byte position of the segment in the list. -/
  start : Nat
  raw : Text
  /-- The segment without its comments. -/
  kept : Text
  deriving DecidableEq, Repr

namespace Segment

def stop (s : Segment) : Nat :=
  s.start + byteLength s.raw

def code (s : Segment) : Text :=
  trim s.kept

def isEmpty (s : Segment) : Bool :=
  s.code.isEmpty

end Segment

/-- The first piece of a scanned list as its raw and its comment-free text, and the pieces after
the commas that follow. -/
def pieces : List Scanned → (Text × Text) × List (Text × Text)
  | [] => (([], []), [])
  | s :: rest =>
    let (first, more) := pieces rest
    if s.isTop ',' then (([], []), first :: more)
    else ((s.char :: first.1, if s.region = .comment then first.2 else s.char :: first.2), more)

/-- Pieces with their places: each starts one byte, its comma, after the one before it. -/
def placed (start : Nat) : List (Text × Text) → List Segment
  | [] => []
  | (raw, kept) :: more => ⟨start, raw, kept⟩ :: placed (start + byteLength raw + 1) more

def segments (text : Text) : Except SignatureFault (List Segment) :=
  match fault? text with
  | some fault => .error fault
  | none =>
    let (first, more) := pieces (scan text)
    .ok (placed 0 (first :: more))

end FieldFill
