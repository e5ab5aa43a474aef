import FieldFill.Lexical.Scan
import FieldFill.Text.Blank

/-!
# Reading one logical line

A Python program is a sequence of logical lines. A logical line goes on over newlines inside
brackets and inside triple-quoted strings, and after a backslash at the end of a physical line.

The reader keeps the constructs that are still open: brackets of each kind, strings, and the
replacement fields of formatted strings, which hold code again. A line cannot be read when a
bracket is closed by one of another kind, when a one-line string meets a newline, or when
something is still open at the end of the program.

* `Reader.step` — what one character does.
* `readLine?` — the characters of the logical line at the start of a text, and what follows it.
-/

namespace FieldFill

inductive Frame where
  | bracket (closer : Char)
  /-- A string; a formatted one has replacement fields. -/
  | literal (quote : Char) (triple formatted : Bool)
  /-- A replacement field, up to its closing brace. -/
  | field
  /-- The format specification of a replacement field. -/
  | specification
  deriving DecidableEq, Repr

structure Reader where
  /-- What is open, the innermost first. -/
  frames : List Frame
  comment : Bool
  /-- After a backslash. -/
  escaped : Bool
  /-- Characters of a delimiter that are still to be passed. -/
  skip : Nat
  /-- The name being read, its last character first. -/
  word : Text
  deriving DecidableEq, Repr

/-- What a character does to a logical line. -/
inductive Progress where
  | continues (region : Region) (next : Reader)
  | ends
  | breaks

/-- Whether a character can stand in a name or a number. Beyond ASCII, a program has nothing but
names outside of strings and comments. -/
def isNameChar (c : Char) : Bool :=
  c.isAlphanum || c = '_' || (decide (0x80 ≤ c.toNat) && !isBlank c && c ≠ '\uFEFF')

/-- Whether a name can stand in front of a string as its kind. -/
def isStringKind (name : Text) : Bool :=
  decide (name.length ≤ 2) &&
    name.all fun c => ['r', 'b', 'u', 'f', 't'].contains c.toLower

def isFormatted (name : Text) : Bool :=
  isStringKind name && name.any fun c => ['f', 't'].contains c.toLower

def closerOf (opener : Char) : Char :=
  if opener = '(' then ')' else if opener = '[' then ']' else '\x7d'

namespace Frame

def isLiteral : Frame → Bool
  | literal .. => true
  | _ => false

end Frame

namespace Reader

def start : Reader :=
  ⟨[], false, false, 0, []⟩

def depth (r : Reader) : Nat :=
  r.frames.length

/-- The region of code: inside a string, the code of a replacement field is part of the string. -/
def region (r : Reader) : Region :=
  if r.frames.any Frame.isLiteral then .literal else .code

/-- A character inside a string. -/
def stepLiteral (r : Reader) (quote : Char) (triple formatted : Bool) (c : Char) (rest : Text) :
    Progress :=
  if r.escaped then .continues .literal { r with escaped := c = '\r' && rest.head? = some '\n' }
  else if c = '\\' then
    .continues .literal { r with escaped := !(formatted && rest.head? = some '\x7b') }
  else if c = quote && (!triple || twoMore quote rest) then
    .continues .literal { r with frames := r.frames.tail, skip := if triple then 2 else 0 }
  else if c = '\n' && !triple then .breaks
  else if formatted && c = '\x7b' then
    if rest.head? = some '\x7b' then .continues .literal { r with skip := 1 }
    else .continues .literal { r with frames := .field :: r.frames }
  else .continues .literal r

/-- A character of a format specification, which ends together with its field. -/
def stepSpecification (r : Reader) (c : Char) : Progress :=
  if c = '\x7b' then .continues .literal { r with frames := .field :: r.frames }
  else if c = '\x7d' then .continues .literal { r with frames := r.frames.drop 2 }
  else .continues .literal r

/-- A closing bracket in code: it has to be of the kind of the bracket it closes. -/
def stepCloser (r : Reader) (c : Char) : Progress :=
  match r.frames with
  | .bracket closer :: outer =>
    if c = closer then .continues r.region { r with frames := outer, word := [] } else .breaks
  | .field :: outer =>
    if c = '\x7d' then .continues r.region { r with frames := outer, word := [] } else .breaks
  | _ => .continues r.region { r with word := [] }

/-- A character of code. -/
def stepCode (r : Reader) (c : Char) (rest : Text) : Progress :=
  if c = '\n' then
    -- Inside of brackets and after a backslash the logical line goes on.
    if r.frames.isEmpty && !r.escaped then .ends
    else .continues r.region { r with comment := false, escaped := false, word := [] }
  else if r.comment then .continues .comment r
  else if r.escaped && c = '\r' then .continues r.region r
  else
    let plain := { r with escaped := false, word := [] }
    if c = '#' then .continues .comment { plain with comment := true }
    else if c = '\\' then .continues r.region { plain with escaped := true }
    else if isQuote c then
      let triple := twoMore c rest
      .continues .literal
        { plain with
          frames := .literal c triple (isFormatted r.word) :: r.frames
          skip := if triple then 2 else 0 }
    else if isOpener c then
      .continues r.region { plain with frames := .bracket (closerOf c) :: r.frames }
    else if isCloser c then plain.stepCloser c
    -- Only a colon that stands directly in a field begins its format.
    else if r.frames.head? = some .field && c = ':' then
      .continues .literal { plain with frames := .specification :: r.frames }
    else if isNameChar c then .continues r.region { plain with word := c :: r.word }
    else .continues r.region plain

def step (r : Reader) (c : Char) (rest : Text) : Progress :=
  match r.skip with
  | more + 1 => .continues .literal { r with skip := more }
  | 0 =>
    match r.frames with
    | .literal quote triple formatted :: _ => r.stepLiteral quote triple formatted c rest
    | .specification :: _ => r.stepSpecification c
    | _ => r.stepCode c rest

end Reader

/-- The characters of the logical line that a text starts with, without the newline that ends it,
and the text after that newline. -/
def readLine? (r : Reader) (offset : Nat) : Text → Option (List Scanned × Text)
  | [] => if r.frames.isEmpty then some ([], []) else none
  | c :: rest =>
    match r.step c rest with
    | .continues region next =>
      (readLine? next (offset + c.utf8Size) rest).map fun (marks, after) =>
        (⟨offset, c, region, min r.depth next.depth, next.depth⟩ :: marks, after)
    | .ends => some ([], rest)
    | .breaks => none

theorem length_lt_of_readLine? {r : Reader} {offset : Nat} {c : Char} {rest after : Text}
    {marks : List Scanned} (h : readLine? r offset (c :: rest) = some (marks, after)) :
    after.length < (c :: rest).length := by
  have aux : ∀ (text : Text) (r : Reader) (offset : Nat) (marks : List Scanned) (after : Text),
      readLine? r offset text = some (marks, after) → after.length ≤ text.length := by
    intro text
    induction text with
    | nil =>
      intro r offset marks after h
      simp only [readLine?] at h
      split at h <;> simp_all
    | cons c rest ih =>
      intro r offset marks after h
      rw [readLine?] at h
      split at h
      · obtain ⟨⟨m, a⟩, hr, heq⟩ := Option.map_eq_some_iff.1 h
        simp only [Prod.mk.injEq] at heq
        have := ih _ _ _ _ hr
        simp only [List.length_cons, ← heq.2]
        omega
      · simp_all
      · cases h
  rw [readLine?] at h
  split at h
  · obtain ⟨⟨m, a⟩, hr, heq⟩ := Option.map_eq_some_iff.1 h
    simp only [Prod.mk.injEq] at heq
    have := aux _ _ _ _ _ hr
    simp only [List.length_cons, ← heq.2]
    omega
  · simp_all
  · cases h

theorem length_breakLine_lt (c : Char) (rest : Text) :
    (breakLine (c :: rest)).2.length < (c :: rest).length := by
  have aux : ∀ text : Text, (breakLine text).2.length ≤ text.length := by
    intro text
    have h := congrArg List.length (breakLine_append text)
    simp only [List.length_append] at h
    omega
  have hRest := aux rest
  by_cases h : c = '\n'
  · simp [breakLine, h]
  · simp only [breakLine, h, if_false, List.length_cons]
    omega

end FieldFill
