import FieldFill.Lexical.Fault

/-!
# Scanning code, strings and comments

A text is read one character at a time. Every character gets the region it belongs to and the
bracket depth it sits at; brackets are counted in code only, and their kinds are not matched
against each other.

Main definitions:

* `State.step` — what one character does, seen with the text that follows it.
* `scanFrom`, `scan` — every character with its place, region and depth.
* `endFrom`, `State.fault?`, `fault?` — the state at the end, and what is wrong with it. A string
  left open comes first, then the first bracket that closed nothing, then brackets left open.
-/

namespace FieldFill

inductive Region where
  | code
  | literal
  | comment
  deriving DecidableEq, Repr

/-- How a string opened: with one quote character or with three of them, and where. -/
structure Quote where
  char : Char
  triple : Bool
  start : Nat
  deriving DecidableEq, Repr

namespace Quote

def delimiter (q : Quote) : Text :=
  if q.triple then [q.char, q.char, q.char] else [q.char]

end Quote

inductive Mode where
  | code
  /-- Inside a string; `escaped` after a backslash that takes the next character. -/
  | literal (quote : Quote) (escaped : Bool)
  | comment
  deriving DecidableEq, Repr

structure State where
  mode : Mode
  /-- Characters of a triple delimiter that are still to be passed. -/
  skip : Nat
  /-- Where the open brackets stand, the innermost first. -/
  openers : List Nat
  /-- The first bracket that closed nothing. -/
  unbalanced : Option (Char × Nat)
  deriving DecidableEq, Repr

namespace State

def start : State :=
  ⟨.code, 0, [], none⟩

def depth (s : State) : Nat :=
  s.openers.length

end State

def isOpener (c : Char) : Bool :=
  c = '(' || c = '[' || c = '\x7b'

def isCloser (c : Char) : Bool :=
  c = ')' || c = ']' || c = '\x7d'

def isQuote (c : Char) : Bool :=
  c = '\'' || c = '\"'

/-- Whether a text goes on with two more of a quote character. -/
def twoMore (quote : Char) : Text → Bool
  | a :: b :: _ => a = quote && b = quote
  | _ => false

namespace State

/-- A character read as code. -/
def stepCode (s : State) (offset : Nat) (c : Char) (rest : Text) : Region × State :=
  if c = '#' then (.comment, { s with mode := .comment })
  else if isQuote c then
    let triple := twoMore c rest
    (.literal,
      { s with mode := .literal ⟨c, triple, offset⟩ false, skip := if triple then 2 else 0 })
  else if isOpener c then (.code, { s with openers := offset :: s.openers })
  else if isCloser c then
    match s.openers with
    | _ :: outer => (.code, { s with openers := outer })
    | [] => (.code, { s with unbalanced := s.unbalanced <|> some (c, offset) })
  else (.code, s)

/-- A character read inside a string. -/
def stepLiteral (s : State) (quote : Quote) (escaped : Bool) (c : Char) (rest : Text) : State :=
  if escaped then { s with mode := .literal quote false }
  else if c = '\\' then { s with mode := .literal quote true }
  else if c = quote.char && (!quote.triple || twoMore quote.char rest) then
    { s with mode := .code, skip := if quote.triple then 2 else 0 }
  else s

def step (s : State) (offset : Nat) (c : Char) (rest : Text) : Region × State :=
  match s.skip with
  | more + 1 => (.literal, { s with skip := more })
  | 0 =>
    match s.mode with
    | .code => s.stepCode offset c rest
    | .literal quote escaped => (.literal, s.stepLiteral quote escaped c rest)
    | .comment => if c = '\n' then (.code, { s with mode := .code }) else (.comment, s)

/-- What is wrong with a text that ends in this state. A comment may run to the end. -/
def fault? (s : State) : Option SignatureFault :=
  match s.mode with
  | .literal quote _ => some (.unterminatedString quote.delimiter quote.start)
  | _ =>
    match s.unbalanced with
    | some (closer, offset) => some (.unbalancedCloser closer offset)
    | none => s.openers.getLast?.map fun outermost => .unterminatedNesting s.depth outermost

end State

/-- A character of a text with its place.

`depth` is the smaller of the depths before and after the character, so that a bracket and the one
that closes it sit at the same depth, outside of what they enclose. -/
structure Scanned where
  offset : Nat
  char : Char
  region : Region
  depth : Nat
  depthAfter : Nat
  deriving DecidableEq, Repr

def scanFrom (s : State) (offset : Nat) : Text → List Scanned
  | [] => []
  | c :: rest =>
    let (region, next) := s.step offset c rest
    ⟨offset, c, region, min s.depth next.depth, next.depth⟩ ::
      scanFrom next (offset + c.utf8Size) rest

def endFrom (s : State) (offset : Nat) : Text → State
  | [] => s
  | c :: rest => endFrom (s.step offset c rest).2 (offset + c.utf8Size) rest

def scan (text : Text) : List Scanned :=
  scanFrom .start 0 text

def endState (text : Text) : State :=
  endFrom .start 0 text

def fault? (text : Text) : Option SignatureFault :=
  (endState text).fault?

/-! ## Characters of a scan -/

namespace Scanned

def isCode (s : Scanned) : Bool :=
  s.region = .code

/-- A given character, in code and outside of all brackets. -/
def isTop (c : Char) (s : Scanned) : Bool :=
  s.isCode && s.depth = 0 && s.char = c

end Scanned

/-- Where a text, scanned from a state, first has a given character in code outside of all
brackets. -/
def firstTopFrom? (c : Char) (s : State) (offset : Nat) : Text → Option Nat
  | [] => none
  | d :: rest =>
    let (region, next) := s.step offset d rest
    if Scanned.isTop c ⟨offset, d, region, min s.depth next.depth, next.depth⟩ then some offset
    else firstTopFrom? c next (offset + d.utf8Size) rest

/-- Where a text first has a given character in code outside of all brackets. -/
def firstTop? (c : Char) (text : Text) : Option Nat :=
  firstTopFrom? c .start 0 text

theorem firstTopFrom?_eq_find? (c : Char) (s : State) (offset : Nat) (text : Text) :
    firstTopFrom? c s offset text =
      ((scanFrom s offset text).find? (Scanned.isTop c)).map Scanned.offset := by
  induction text generalizing s offset with
  | nil => rfl
  | cons d rest ih =>
    rw [firstTopFrom?, scanFrom]
    obtain ⟨region, next⟩ := s.step offset d rest
    simp only [List.find?_cons, ih]
    split <;> simp_all

theorem map_char_scanFrom (s : State) (offset : Nat) (text : Text) :
    (scanFrom s offset text).map Scanned.char = text := by
  induction text generalizing s offset with
  | nil => rfl
  | cons c rest ih => simp [scanFrom, ih]

end FieldFill
