import FieldFill.Lexical.Scan
import FieldFill.Outline.Basic
import FieldFill.Outline.Header

/-!
# Recovering broken headers

A class may have an initializer whose header cannot be read. Then the lines of the class are
searched for the words of a header, so that the initializer is reported and not ignored. Only the
block of the class is searched: the lines after its header that are indented deeper than the class
and at least as deep as the first of them, and headers count at that indentation only.
-/

namespace FieldFill

/-- Whether a line holds something besides blanks and a comment, given without its indentation. -/
def holdsCode (code : Text) : Bool :=
  !allBlank code && code.head? ≠ some '#'

/-- The byte positions of the parentheses of initializer headers in the block that starts with
these lines. `bodyIndent` is the indentation of its first line, once that is known. -/
def headersIn (classIndent : Nat) (bodyIndent : Option Nat) (offset : Nat) :
    List Text → List Nat
  | [] => []
  | line :: more =>
    let code := line.dropWhile isIndent
    let next := offset + byteLength line
    if !holdsCode code then headersIn classIndent bodyIndent next more
    else
      let indent := (line.takeWhile isIndent).length
      let body := bodyIndent.getD indent
      if indent ≤ classIndent || indent < body then []
      else
        let here :=
          if indent = body then
            (initializerHead? code).toList.map fun tail => next - byteLength tail
          else []
        here ++ headersIn classIndent (some body) next more

/-- The header lines of initializers in the class whose keyword stands at `start` and whose name
ends at `nameEnd`. -/
def recoveredHeaders (source : Text) (start nameEnd : Nat) : List Nat :=
  match splitAt? source start, splitAt? source nameEnd with
  | some (before, _), some (_, afterName) =>
    match (firstTop? ':' afterName).bind (splitAt? afterName) with
    | some (header, fromColon) =>
      let (headerLine, block) := breakLine fromColon
      let blockStart := nameEnd + byteLength header + byteLength headerLine
      headersIn (byteLength (lastLine before)) none blockStart (lines block)
    | none => []
  | _, _ => []

/-- The line on which a byte position falls, from one. -/
def lineAt (source : Text) (offset : Nat) : Nat :=
  match splitAt? source offset with
  | some (before, _) => newlines before + 1
  | none => 1

def recover (source : Text) (start nameEnd : Nat) : Lookup :=
  match recoveredHeaders source start nameEnd with
  | [] => .missing
  | [openParen] => .unparsed (lineAt source openParen) openParen
  | headers => .multiple headers.length

end FieldFill
