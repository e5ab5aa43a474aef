import FieldFill.Lexical.Closing
import FieldFill.Outline.Header
import FieldFill.Parameter.Assignment
import FieldFill.Plan.Basic
import FieldFill.Plan.Fault

/-!
# Planning at a line

The initializer around a line is found by its text, so that the document need not be valid: the
nearest header at the line or above it decides. Statements go right after the header, below a
leading docstring. The body is not looked at otherwise, since naming a line is a request to fill
what is there.

* `headerAbove?` — the nearest header at the last of some lines or above it.
* `enclosingClass` — the name of the class around an initializer.
* `docstringEnd?` — where a docstring that opens a body ends its line.
* `planAtLine` — the plan for the initializer around a line.
-/

namespace FieldFill

/-! ## The header -/

/-- What kind of header a line is. An initializer is looked for anywhere in the line. -/
inductive Header where
  /-- The text of the line up to the opening parenthesis. -/
  | initializer (upToParen : Text)
  | other

def Header.ofLine? (line : Text) : Option Header :=
  match findInitializer? line with
  | some (before, _) => some (.initializer before)
  | none => if isFunctionHead line || (classHead? line).isSome then some .other else none

/-- The nearest header among lines given from the last one up, with its line and the lines above
it. -/
def headerAbove? : List Text → Option (Header × Text × List Text)
  | [] => none
  | line :: above =>
    match Header.ofLine? line with
    | some header => some (header, line, above)
    | none => headerAbove? above

/-- The byte length of the blanks a line starts with. -/
def blankLead (line : Text) : Nat :=
  byteLength (line.takeWhile isBlank)

/-- The name of the nearest class above that is indented less than `indent` bytes. Without one the
initializer belongs to the module. -/
def enclosingClass (above : List Text) (indent : Nat) : Text :=
  let name? := above.findSome? fun line =>
    if blankLead line < indent then classHead? line else none
  name?.getD "<module>".toList

/-! ## The body -/

/-- Whether something besides a return annotation and a comment follows a parameter list on its
line. -/
def hasInlineBody (tail : Text) : Bool :=
  let code := trim (tail.takeWhile (· ≠ '#'))
  code.contains ':' && !allBlank (code.reverse.takeWhile (· ≠ ':'))

/-- Whether a character can stand in front of a docstring as its kind. -/
def isDocstringKind (c : Char) : Bool :=
  c = 'r' || c = 'R' || c = 'u' || c = 'U'

/-- The text of a body up to the end of the line on which a docstring that opens it ends, with
nothing but a comment after it. -/
def docstring? (body : Text) : Option Text := do
  let literal := body.dropWhile isBlank
  let kind := literal.takeWhile fun c => !isQuote c
  let string := literal.dropWhile fun c => !isQuote c
  if string.isEmpty || 2 < byteLength kind || !kind.all isDocstringKind then none
  else
    let marks := scan string
    let after := (marks.dropWhile fun s => s.region = .literal).map Scanned.char
    if after.isEmpty then none
    else
      let (rest, following) := breakLine after
      if allBlank rest || (trim rest).head? = some '#' then
        some (body.take (body.length - following.length))
      else none

/-! ## The plan -/

/-- The plan for an initializer whose line starts after `before`. `header` is the text of the line
up to the opening parenthesis and `tail` the text of the document from there on. -/
def planHeader (settings : Settings) (className : Text) (row : Nat)
    (indent before header tail : Text) : Except PlanFault Plan := do
  let openParen := byteLength before + byteLength header
  let (enclosed, fromClose) ←
    (toClosing tail).mapError fun fault => .signature className (fault.shift openParen)
  let (closeLine, body) := breakLine fromClose
  -- The line starts with the closing parenthesis itself.
  if hasInlineBody (closeLine.drop 1) then throw (.inlineBody className row)
  let made ← (assignments settings (enclosed.drop 1)).mapError fun fault =>
    .signature className fault
  if made.isEmpty then return ⟨[⟨className, row, .nothingToGenerate⟩], []⟩
  let statements := made.map Assignment.render
  let bodyStart := openParen + byteLength enclosed + byteLength closeLine
  let insertAt := bodyStart + ((docstring? body).map byteLength).getD 0
  return ⟨[⟨className, row, .generated statements⟩],
    [⟨insertAt, indent ++ settings.indentUnit, statements⟩]⟩

/-- The plan for the initializer around a line, counted from one. -/
def planAtLine (source : Text) (line : Nat) (settings : Settings) : Except PlanFault Plan :=
  let all := lines source
  if line = 0 || all.length < line then .error (.lineOutOfRange line all.length)
  else
    match headerAbove? (all.take line).reverse with
    | none => .error (.noInitializerAbove line)
    | some (.other, found, _) => .error (.notInsideInitializer line (trim found))
    | some (.initializer header, headerLine, above) =>
      let indent := headerLine.takeWhile isIndent
      let before := above.reverse.flatten
      let following := (all.drop (above.length + 1)).flatten
      planHeader settings (enclosingClass above indent.length) (above.length + 1) indent before
        header (headerLine.drop header.length ++ following)

end FieldFill
