import FieldFill.Layout.Reading

/-!
# Logical lines and their tokens

The lines of a program that hold code, each with its place, its indentation and its tokens. Blank
lines and lines of comments are left out. A line that cannot be read ends with its physical line
and has no tokens.

* `Token` — a name or number, a string with its kind, or another character.
* `tokens` — the tokens of a logical line; adjacent strings count as one.
* `layout` — the lines of a program.
-/

namespace FieldFill

inductive Lexeme where
  /-- A name, a keyword or a number. -/
  | word (text : Text)
  | literal
  | mark (char : Char)
  deriving DecidableEq, Repr

structure Token where
  start : Nat
  stop : Nat
  /-- The number of brackets around the token. -/
  depth : Nat
  lexeme : Lexeme
  deriving DecidableEq, Repr

namespace Token

/-- A given character outside of all brackets. -/
def isMark (c : Char) (t : Token) : Bool :=
  t.depth = 0 && t.lexeme = .mark c

def isWord (name : String) (t : Token) : Bool :=
  t.lexeme = .word name.toList

def isLiteral (t : Token) : Bool :=
  t.lexeme = .literal

end Token

/-- Puts a character in front of the tokens that follow it. -/
def pushChar (s : Scanned) (following : List Token) : List Token :=
  let stop := s.offset + s.char.utf8Size
  match s.region with
  | .comment => following
  | .literal =>
    match following with
    | t :: more =>
      if t.isLiteral && t.start = stop then { t with start := s.offset } :: more
      else ⟨s.offset, stop, s.depth, .literal⟩ :: following
    | [] => [⟨s.offset, stop, s.depth, .literal⟩]
  | .code =>
    if isNameChar s.char then
      match following with
      | ⟨start, wordStop, depth, .word text⟩ :: more =>
        if start = stop then ⟨s.offset, wordStop, depth, .word (s.char :: text)⟩ :: more
        else ⟨s.offset, stop, s.depth, .word [s.char]⟩ :: following
      | _ => ⟨s.offset, stop, s.depth, .word [s.char]⟩ :: following
    else if isBlank s.char || s.char = '\\' || s.char = '\uFEFF' then following
    else ⟨s.offset, stop, s.depth, .mark s.char⟩ :: following

/-- Joins the kind of a string with the string right after it. -/
def joinKinds : List Token → List Token
  | ⟨start, stop, depth, .word name⟩ :: next :: more =>
    if next.isLiteral && next.start = stop && isStringKind name then
      { next with start := start } :: joinKinds more
    else ⟨start, stop, depth, .word name⟩ :: joinKinds (next :: more)
  | t :: more => t :: joinKinds more
  | [] => []

def tokens (marks : List Scanned) : List Token :=
  joinKinds (marks.foldr pushChar [])

/-- The indentation of a line: a tab counts as eight spaces, and a form feed or a carriage return
begins anew. -/
def indentation (width : Nat) : List Scanned → Nat
  | [] => width
  | s :: rest =>
    if s.char = ' ' then indentation (width + 1) rest
    else if s.char = '\t' then indentation (width + 8) rest
    else if s.char = '\r' || s.char = '\x0c' then indentation 0 rest
    else if s.char = '\\' || s.char = '\n' || s.char = '\uFEFF' then indentation width rest
    else width

structure Line where
  /-- The byte position of the first token. -/
  start : Nat
  /-- The number of the physical line it stands on, from one. -/
  row : Nat
  indent : Nat
  tokens : List Token
  deriving DecidableEq, Repr

/-- Whether a scanned character begins the code of a line. -/
def beginsCode (s : Scanned) : Bool :=
  s.region ≠ .comment && !isBlank s.char && s.char ≠ '\\' && s.char ≠ '\uFEFF'

/-- The line of some scanned characters that start on the physical line `row`, if they hold code. -/
def lineOf? (row : Nat) (marks : List Scanned) (tokens : List Token) : Option Line :=
  (marks.find? beginsCode).map fun first =>
    let lead := marks.takeWhile fun s => !beginsCode s
    ⟨first.offset, row + lead.countP (·.char = '\n'), indentation 0 marks, tokens⟩

/-- The characters of a physical line that cannot be read as code. -/
def unread (offset : Nat) : Text → List Scanned
  | [] => []
  | c :: rest => ⟨offset, c, .code, 0, 0⟩ :: unread (offset + c.utf8Size) rest

def layoutFrom (offset row : Nat) : Text → List Line
  | [] => []
  | c :: rest =>
    match _h : readLine? .start offset (c :: rest) with
    | some (marks, after) =>
      let read := marks.map Scanned.char
      (lineOf? row marks (tokens marks)).toList ++
        layoutFrom (offset + byteLength read + 1) (row + newlines read + 1) after
    | none =>
      let line := (breakLine (c :: rest)).1
      (lineOf? row (unread offset line) []).toList ++
        layoutFrom (offset + byteLength line) (row + newlines line) (breakLine (c :: rest)).2
termination_by text => text.length
decreasing_by
  · exact length_lt_of_readLine? _h
  · exact length_breakLine_lt c rest

/-- The lines of code of a program, in order. -/
def layout (source : Text) : List Line :=
  layoutFrom 0 1 source

end FieldFill
