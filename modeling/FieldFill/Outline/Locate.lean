import FieldFill.Layout.Line
import FieldFill.Outline.Recovery

/-!
# Locating classes

The outline of a program is read off its logical lines. Lines indented deeper than a header and
following it are its block; the direct statements of a class are the lines of its block at the
indentation of the first one. Decorators are lines of their own, so that an initializer is found
below them.

* `ClassHeader.ofTokens?`, `FunctionHeader.ofTokens?` — headers among the lines.
* `initializersIn` — the initializers among the direct statements of a class.
* `initializerOf?` — where the body of an initializer starts, and its shape.
* `locate` — every class of a program, in order.
-/

namespace FieldFill

/-! ## Headers -/

/-- The tokens after the colon that ends a header: the first one outside of brackets that does not
belong to a `lambda`. -/
def afterColon? (lambdas : Nat) : List Token → Option (List Token)
  | [] => none
  | t :: rest =>
    if t.depth = 0 && t.isWord "lambda" then afterColon? (lambdas + 1) rest
    else if t.isMark ':' then
      match lambdas with
      | 0 => some rest
      | inner + 1 => afterColon? inner rest
    else afterColon? lambdas rest

structure ClassHeader where
  name : Text
  nameEnd : Nat
  deriving DecidableEq, Repr

def ClassHeader.ofTokens? : List Token → Option ClassHeader
  | keyword :: ⟨_, stop, _, .word name⟩ :: rest =>
    if keyword.isWord "class" then (afterColon? 0 rest).map fun _ => ⟨name, stop⟩ else none
  | _ => none

structure FunctionHeader where
  name : Text
  openParen : Nat
  /-- The tokens of the body that stand on the same logical line. -/
  rest : List Token
  deriving DecidableEq, Repr

def FunctionHeader.ofTokens? (tokens : List Token) : Option FunctionHeader :=
  let tokens :=
    match tokens with
    | first :: rest => if first.isWord "async" then rest else tokens
    | [] => []
  match tokens with
  | keyword :: ⟨_, _, _, .word name⟩ :: signature =>
    if keyword.isWord "def" then do
      let paren ← signature.find? (Token.isMark '(')
      let rest ← afterColon? 0 signature
      some ⟨name, paren.start, rest⟩
    else none
  | _ => none

/-! ## Bodies -/

/-- Whether a statement is nothing but strings. -/
def isStrings (statement : List Token) : Bool :=
  !statement.isEmpty && statement.all Token.isLiteral

/-- Whether a simple statement does nothing: `pass`, `...`, or nothing but strings. -/
def isPlaceholder : List Token → Bool
  | [t] => t.isWord "pass" || t.isLiteral
  | [a, b, c] => (a.isMark '.' && b.isMark '.' && c.isMark '.') || isStrings [a, b, c]
  | statement => isStrings statement

/-- The end of a statement that is nothing but strings. -/
def stringsEnd? (statement : List Token) : Option Nat :=
  if isStrings statement then statement.getLast?.map Token.stop else none

/-- The text on the line of a byte position in front of it. -/
def leadAt (source : Text) (offset : Nat) : Text :=
  match splitAt? source offset with
  | some (before, _) => lastLine before
  | none => []

/-- The start of the line after the one a byte position falls on, or the end of the text. -/
def nextLineStart (source : Text) (offset : Nat) : Nat :=
  match splitAt? source offset with
  | some (_, after) => offset + byteLength (breakLine after).1
  | none => offset

/-- The body made of these lines of statements, each with the place where it starts. A semicolon
is more than a placeholder, also when nothing follows it. -/
def bodyOf (source : Text) (statements : List (Nat × List Token)) : Option Body :=
  statements.head?.map fun (start, first) =>
    let indent := leadAt source start
    if !allBlank indent then .inline
    else
      let shape :=
        if statements.all fun s => isPlaceholder s.2 then Shape.trivial else .nonTrivial
      let insertAt :=
        match stringsEnd? (first.takeWhile fun t => !t.isMark ';') with
        | some stop => nextLineStart source stop
        | none => start - byteLength indent
      .block insertAt indent shape

/-- The lines at one indentation, each with the lines indented deeper that follow it. -/
def statementsAt (indent : Nat) : List Line → List (Line × List Line)
  | [] => []
  | line :: rest =>
    if line.indent = indent then
      (line, rest.takeWhile fun l => indent < l.indent) :: statementsAt indent rest
    else statementsAt indent rest

/-- The direct statements of the block made of these lines. -/
def directStatements (block : List Line) : List (Line × List Line) :=
  match block with
  | [] => []
  | first :: _ => statementsAt first.indent block

/-- The initializer with this header and the block below it; none when it has no statement. -/
def initializerOf? (source : Text) (line : Line) (header : FunctionHeader) (block : List Line) :
    Option Initializer :=
  let statements :=
    match header.rest with
    | [] => (directStatements block).map fun s => (s.1.start, s.1.tokens)
    | first :: rest => [(first.start, first :: rest)]
  (bodyOf source statements).map fun body => ⟨line.row, header.openParen, body⟩

/-! ## Classes -/

/-- The initializers among the direct statements of a class. -/
def initializersIn (block : List Line) : List (Line × FunctionHeader × List Line) :=
  (directStatements block).filterMap fun (line, inner) =>
    match FunctionHeader.ofTokens? line.tokens with
    | some header => if header.name = initializerName then some (line, header, inner) else none
    | none => none

def lookupIn (source : Text) (start : Nat) (header : ClassHeader) (block : List Line) : Lookup :=
  match initializersIn block with
  | [] => recover source start header.nameEnd
  | [(line, function, inner)] =>
    match initializerOf? source line function inner with
    | some initializer => .found initializer
    | none => .missing
  | several => .multiple several.length

def entries (source : Text) : List Line → List ClassEntry
  | [] => []
  | line :: rest =>
    match ClassHeader.ofTokens? line.tokens with
    | some header =>
      let block := rest.takeWhile fun l => line.indent < l.indent
      ⟨header.name, line.row, lookupIn source line.start header block⟩ :: entries source rest
    | none => entries source rest

/-- Every class of a program, nested ones included, in the order of their headers. -/
def locate (source : Text) : List ClassEntry :=
  entries source (layout source)

end FieldFill
