import FieldFill.Parameter.Segment
import FieldFill.Text.Letter

/-!
# Parameters

What a segment of a parameter list declares: a name, the role it has in the signature, and whether
an annotation and a default follow it. The markers `*` and `/`, and empty segments, declare
nothing.

* `Parameter.ofSegment?` — the parameter of a segment.
* `parameters` — all parameters of a list, in order.
-/

namespace FieldFill

inductive Role where
  /-- The object under construction, such as `self`. -/
  | receiver
  /-- A named parameter that becomes an attribute. -/
  | ordinary
  | variadicPositional
  | variadicKeyword
  deriving DecidableEq, Repr

structure Parameter where
  name : Text
  role : Role
  annotated : Bool
  defaulted : Bool
  deriving DecidableEq, Repr

namespace Parameter

def isOrdinary (p : Parameter) : Bool :=
  p.role = .ordinary

/-- The role that leading stars give, and the text after them. -/
def stars : Text → Option Role × Text
  | '*' :: '*' :: rest => (some .variadicKeyword, rest)
  | '*' :: rest => (some .variadicPositional, rest)
  | text => (none, text)

/-- Whether a character cannot stand just before the `=` of a default: with it, the `=` belongs to
a comparison. -/
def joinsEquals (c : Char) : Bool :=
  c = '=' || c = '!' || c = '<' || c = '>'

/-- Whether a scan holds an `=` in code outside of all brackets that is no part of a comparison.
`before` is the character in front of the scan. -/
def marksDefault (before : Option Char) : List Scanned → Bool
  | [] => false
  | s :: rest =>
    (s.isTop '=' && !before.any joinsEquals && (rest.head?.map Scanned.char ≠ some '=')) ||
      marksDefault (some s.char) rest

def ofSegment? (receivers : List Text) (segment : Segment) : Option Parameter :=
  let (starred, rest) := stars segment.code
  let (name, after) := leadingName (trimStart rest)
  if name.isEmpty then none
  else
    some {
      name
      role := starred.getD (if receivers.contains name then .receiver else .ordinary)
      annotated := (trimStart after).head? = some ':'
      defaulted := marksDefault none (scan after) }

end Parameter

def parameters (receivers : List Text) (text : Text) : Except SignatureFault (List Parameter) :=
  (segments text).map fun list => list.filterMap (Parameter.ofSegment? receivers)

end FieldFill
