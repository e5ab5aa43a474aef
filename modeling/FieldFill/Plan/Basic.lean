import FieldFill.Outline.Basic
import FieldFill.Lexical.Fault
import FieldFill.Text.Basic

/-!
# Plans

A plan says what happens to each initializer and which lines are inserted where. Making a plan
changes nothing; `Plan.apply` makes the new text.

* `Insertion` — whole lines for one place of a text.
* `Report`, `Outcome`, `Skip` — what happened to one class, and why an initializer is left alone.
* `Plan.apply` — inserts from the end of the text to its start, so that places stay valid.
-/

namespace FieldFill

/-! ## Insertions -/

/-- Lines that go to the byte position `offset`, each with `indent` in front. -/
structure Insertion where
  offset : Nat
  indent : Text
  lines : List Text
  deriving DecidableEq, Repr

/-- The line ending in use at the end of `before`: that of the last newline in it, or else that of
the first newline after it. -/
def lineEnding (before after : Text) : Text :=
  let lastFirst :=
    if before.contains '\n' then before.reverse.dropWhile (· ≠ '\n')
    else (breakLine (before ++ after)).1.reverse
  match lastFirst with
  | '\n' :: '\r' :: _ => ['\r', '\n']
  | _ => ['\n']

namespace Insertion

/-- The lines as they are written, each with a line ending. -/
def render (i : Insertion) (ending : Text) : Text :=
  i.lines.flatMap fun line => i.indent ++ line ++ ending

/-- The text with the lines inserted; it is `none` when the place is not between two characters. A
line that is not complete is ended first. -/
def insertInto? (i : Insertion) (text : Text) : Option Text :=
  (splitAt? text i.offset).map fun (before, after) =>
    let ending := lineEnding before after
    let gap := if before.isEmpty || endsInNewline before then [] else ending
    before ++ gap ++ i.render ending ++ after

end Insertion

/-! ## Reports -/

inductive Skip where
  | nonTrivialBody
  | inlineBody
  | multipleInitializers (count : Nat)
  deriving DecidableEq, Repr

inductive Outcome where
  | generated (statements : List Text)
  /-- The initializer takes nothing but its receiver and variadic parameters. -/
  | nothingToGenerate
  | noInitializer
  | skipped (skip : Skip)
  | failed (diagnostic : String)
  deriving DecidableEq, Repr

namespace Outcome

def isFailed : Outcome → Bool
  | failed _ => true
  | _ => false

end Outcome

/-- What happened to a class. `line` is that of its initializer, or of the class without one. -/
structure Report where
  className : Text
  line : Nat
  outcome : Outcome
  deriving DecidableEq, Repr

structure Plan where
  reports : List Report
  insertions : List Insertion
  deriving DecidableEq, Repr

namespace Plan

def isUnchanged (p : Plan) : Bool :=
  p.insertions.isEmpty

def hasFailures (p : Plan) : Bool :=
  p.reports.any fun r => r.outcome.isFailed

/-- The insertions by descending place; those at one place keep their order. -/
def ordered (p : Plan) : List Insertion :=
  p.insertions.mergeSort fun a b => decide (b.offset ≤ a.offset)

/-- The text with all insertions made, or `none` when one of them has no place in it. -/
def apply (p : Plan) (text : Text) : Option Text :=
  p.ordered.foldlM (fun current i => i.insertInto? current) text

end Plan

end FieldFill
