import FieldFill.Text.Quoted

/-!
# Faults in a JSON text

What is wrong with a text that should hold settings in JSON, and where. A place is given by the
text that was still to be read there, and counted as a line, from one, and the bytes read on it.
-/

namespace FieldFill.Json

/-- A value of another type than the one asked for. -/
inductive Unexpected where
  | null
  | boolean (value : Bool)
  | integer (value : Int)
  /-- A number that is no integer, with its text. -/
  | decimal (text : Text)
  | string (text : Text)
  | sequence
  | map
  deriving DecidableEq, Repr

namespace Unexpected

def message : Unexpected → String
  | null => "null"
  | boolean true => "boolean `true`"
  | boolean false => "boolean `false`"
  | integer value => "integer `" ++ toString value ++ "`"
  | decimal text => "floating point `" ++ String.ofList text ++ "`"
  | string text => "string " ++ String.ofList (quoted text)
  | sequence => "sequence"
  | map => "map"

end Unexpected

inductive Fault where
  | endOfValue
  | endOfString
  | endOfList
  | endOfObject
  | expectedValue
  /-- A word that starts like `null`, `true` or `false` and goes on otherwise. -/
  | expectedWord
  | expectedColon
  | expectedListSeparator
  | expectedObjectSeparator
  | keyNotString
  | trailingComma
  | trailingCharacters
  | invalidNumber
  | numberOutOfRange
  | controlCharacter
  | invalidEscape
  | loneSurrogate
  | unfinishedSurrogate
  | invalidType (found : Unexpected) (expected : String)
  | unknownField (name : Text) (known : List String)
  | duplicateField (name : String)
  | unknownVariant (name : Text) (known : List String)
  deriving DecidableEq, Repr

/-- A name between backticks. -/
def ticked (name : String) : String :=
  "`" ++ name ++ "`"

/-- The names that are possible, as a message lists them. -/
def oneOf : List String → String
  | [a, b] => "expected " ++ ticked a ++ " or " ++ ticked b
  | names => "expected one of " ++ ", ".intercalate (names.map ticked)

namespace Fault

def message : Fault → String
  | endOfValue => "EOF while parsing a value"
  | endOfString => "EOF while parsing a string"
  | endOfList => "EOF while parsing a list"
  | endOfObject => "EOF while parsing an object"
  | expectedValue => "expected value"
  | expectedWord => "expected ident"
  | expectedColon => "expected `:`"
  | expectedListSeparator => "expected `,` or `]`"
  | expectedObjectSeparator => "expected `,` or `\x7d`"
  | keyNotString => "key must be a string"
  | trailingComma => "trailing comma"
  | trailingCharacters => "trailing characters"
  | invalidNumber => "invalid number"
  | numberOutOfRange => "number out of range"
  | controlCharacter => "control character (\\u0000-\\u001F) found while parsing a string"
  | invalidEscape => "invalid escape"
  | loneSurrogate => "lone leading surrogate in hex escape"
  | unfinishedSurrogate => "unexpected end of hex escape"
  | invalidType found expected =>
    "invalid type: " ++ found.message ++ ", expected " ++ expected
  | unknownField name known =>
    "unknown field " ++ ticked (String.ofList name) ++ ", " ++ oneOf known
  | duplicateField name => "duplicate field " ++ ticked name
  | unknownVariant name known =>
    "unknown variant " ++ ticked (String.ofList name) ++ ", " ++ oneOf known

end Fault

/-- A fault with its place: `ahead` bytes into `rest`, which is what was still to be read. -/
structure Failure where
  fault : Fault
  rest : Text
  ahead : Nat
  deriving DecidableEq, Repr

namespace Failure

/-- The byte position in the whole text; it is never beyond its end. -/
def index (f : Failure) (text : Text) : Nat :=
  min (byteLength text) (byteLength text - byteLength f.rest + f.ahead)

/-- The line and column after a number of bytes of a text. A position inside a character counts the
bytes of that character before it. -/
def place (line column : Nat) : Text → Nat → Nat × Nat
  | _, 0 => (line, column)
  | [], _ + 1 => (line, column)
  | c :: rest, n + 1 =>
    if c = '\n' then place (line + 1) 0 rest n
    else if c.utf8Size ≤ n + 1 then place line (column + c.utf8Size) rest (n + 1 - c.utf8Size)
    else (line, column + n + 1)

def message (f : Failure) (text : Text) : String :=
  let (line, column) := place 1 0 text (f.index text)
  f.fault.message ++ " at line " ++ toString line ++ " column " ++ toString column

end Failure

/-- A fault where the reading stands. -/
def failHere {α : Type} (fault : Fault) (rest : Text) : Except Failure α :=
  .error ⟨fault, rest, 0⟩

/-- A fault about the next byte, which counts as read. -/
def failNext {α : Type} (fault : Fault) (rest : Text) : Except Failure α :=
  .error ⟨fault, rest, 1⟩

end FieldFill.Json
