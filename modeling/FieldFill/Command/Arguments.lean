import FieldFill.Command.Basic

/-!
# Arguments

How a request is written as a list of arguments. Options may stand before and after the name of
the command; one that is given after it counts more, and the environment counts least. `--` makes
operands of all that follows it.

* `words` — the arguments cut into options with their values, flags and operands.
* `Request.ofArguments?` — the request, or `none` when the arguments do not make one.
-/

namespace FieldFill

/-! ## Words -/

inductive Flag where
  | verbose
  | version
  | write
  | force
  deriving DecidableEq, Repr

/-- The options that take a value. -/
inductive Choice where
  | settings
  | receiver
  | format
  | line
  deriving DecidableEq, Repr

inductive Word where
  | flag (flag : Flag)
  | choice (choice : Choice) (value : Text)
  | operand (text : Text)
  /-- `--`, after which there are operands only. -/
  | divider
  /-- An option that there is not, or one whose value is missing or out of place. -/
  | unknown
  deriving DecidableEq, Repr

def Flag.name : Flag → String
  | verbose => "verbose"
  | version => "version"
  | write => "write"
  | force => "force"

def Flag.ofName? (name : Text) : Option Flag :=
  [verbose, version, write, force].find? fun flag => flag.name.toList = name

def Flag.ofLetter? : Char → Option Flag
  | 'v' => some .verbose
  | 'V' => some .version
  | _ => none

def Choice.name : Choice → String
  | settings => "config"
  | receiver => "receiver"
  | format => "format"
  | line => "line"

def Choice.ofName? (name : Text) : Option Choice :=
  [settings, receiver, format, line].find? fun choice => choice.name.toList = name

/-- Whether an argument is no option: it does not start with a hyphen, or is nothing else. -/
def isOperand : Text → Bool
  | ['-'] => true
  | '-' :: _ => false
  | _ => true

/-- The option whose value is the argument after this one. -/
def awaiting? : Text → Option Choice
  | '-' :: '-' :: name => Choice.ofName? name
  | _ => none

/-- The word of an option that has its value in the same argument. -/
def joinedWord (name value : Text) : Word :=
  match Choice.ofName? name with
  | some choice => .choice choice value
  | none => .unknown

/-- The words of an argument that does not depend on others. -/
def ownWords : Text → List Word
  | ['-', '-'] => [.divider]
  | '-' :: '-' :: name =>
    if name.contains '=' then
      [joinedWord (name.takeWhile (· ≠ '=')) ((name.dropWhile (· ≠ '=')).drop 1)]
    else [((Flag.ofName? name).map Word.flag).getD .unknown]
  | ['-'] => [.operand ['-']]
  | '-' :: letters => letters.map fun c => ((Flag.ofLetter? c).map Word.flag).getD .unknown
  | text => [.operand text]

def words : List Text → List Word
  | [] => []
  | [argument] => ownWords argument
  | argument :: next :: rest =>
    match awaiting? argument with
    | some choice =>
      if isOperand next then .choice choice next :: words rest else [.unknown]
    | none =>
      if argument = ['-', '-'] then .divider :: (next :: rest).map Word.operand
      else ownWords argument ++ words (next :: rest)

/-! ## Options -/

/-- The options that all commands have, as far as they are given. -/
structure Choices where
  settingsPath : Option Text
  receivers : List Text
  format : Option Format
  deriving DecidableEq, Repr

namespace Choices

def empty : Choices :=
  ⟨none, [], none⟩

/-- Adds an option. Only the names of receivers can be given more than once. -/
def add? (c : Choices) (choice : Choice) (value : Text) : Option Choices :=
  match choice with
  | .settings =>
    if c.settingsPath.isSome || value.isEmpty then none
    else some { c with settingsPath := some value }
  | .receiver => some { c with receivers := c.receivers ++ [value] }
  | .format =>
    if c.format.isSome then none
    else (Format.ofName? value).map fun format => { c with format := some format }
  | .line => none

/-- The options of two places. One that is given in the inner place counts more. -/
def overriding (inner outer : Choices) : Choices where
  settingsPath := inner.settingsPath.or outer.settingsPath
  receivers := if inner.receivers.isEmpty then outer.receivers else inner.receivers
  format := inner.format.or outer.format

end Choices

/-- What follows the name of a command. -/
structure Details where
  choices : Choices
  line : Option Nat
  write : Bool
  force : Bool
  operands : List Text
  deriving DecidableEq, Repr

namespace Details

def empty : Details :=
  ⟨.empty, none, false, false, []⟩

/-- The greatest line number that can be given. -/
def greatestLine : Nat :=
  0xFFFFFFFFFFFFFFFF

/-- Reads a line number: decimal digits, after a `+` or not. -/
def lineOf? (value : Text) : Option Nat :=
  let digits := if value.head? = some '+' then value.drop 1 else value
  if digits.isEmpty || !digits.all Char.isDigit then none
  else
    let line := digits.foldl (fun n c => 10 * n + (c.toNat - '0'.toNat)) 0
    if line ≤ greatestLine then some line else none

def addFlag? (d : Details) : Flag → Option Details
  | .verbose => some d
  | .version => none
  | .write => if d.write then none else some { d with write := true }
  | .force => if d.force then none else some { d with force := true }

def addWord? (d : Details) : Word → Option Details
  | .flag flag => d.addFlag? flag
  | .choice .line value =>
    if d.line.isSome then none
    else (lineOf? value).map fun line => { d with line := some line }
  | .choice choice value =>
    (d.choices.add? choice value).map fun choices => { d with choices }
  | .operand text => some { d with operands := d.operands ++ [text] }
  | .divider => some d
  | .unknown => none

end Details

/-! ## Requests -/

inductive CommandName where
  | generate
  | atLine
  | signature
  deriving DecidableEq, Repr

def CommandName.name : CommandName → String
  | generate => "generate"
  | atLine => "at-line"
  | signature => "signature"

def CommandName.ofName? (name : Text) : Option CommandName :=
  [generate, atLine, signature].find? fun command => command.name.toList = name

/-- The command with a name. Each takes its own flags and number of operands, and a path is never
empty. -/
def Command.ofDetails? (name : CommandName) (d : Details) : Option Command :=
  match name with
  | .generate =>
    if d.line.isSome || d.operands.isEmpty || d.operands.any List.isEmpty then none
    else some (.generate d.operands d.write d.force)
  | .atLine =>
    match d.operands, d.line with
    | [path], some line =>
      if d.force || path.isEmpty then none else some (.atLine path line d.write)
    | _, _ => none
  | .signature =>
    if d.line.isSome || d.write || d.force then none
    else
      match d.operands with
      | [] => some (.signature none)
      | [text] => some (.signature (some text))
      | _ => none

namespace Request

/-- Whether the path of the settings in the environment is refused: it is empty, and the options
in one of the two places leave it to the environment. -/
def refusesEnvironment (environment : Option Text) (inner outer : Choices) : Bool :=
  environment = some [] && (inner.settingsPath.isNone || outer.settingsPath.isNone)

/-- The request of a command's name and the words after it. `outer` holds the options before the
name. -/
def ofCommand? (environment : Option Text) (outer : Choices) (name : Text) (rest : List Word) :
    Option Request := do
  let command ← CommandName.ofName? name
  let details ← rest.foldlM Details.addWord? .empty
  let command ← Command.ofDetails? command details
  -- The environment is looked at last, when the arguments are known to be good.
  if refusesEnvironment environment details.choices outer then failure
  let choices := details.choices.overriding outer
  return .run {
    settingsPath := choices.settingsPath.or environment
    receivers := choices.receivers
    format := choices.format.getD .text
    command }

/-- The request of words from the left. A question for the version is answered as soon as it is
read. -/
def ofWords? (environment : Option Text) (outer : Choices) : List Word → Option Request
  | .flag .verbose :: rest => ofWords? environment outer rest
  | .flag .version :: _ => some .version
  | .choice choice value :: rest =>
    (outer.add? choice value).bind fun outer => ofWords? environment outer rest
  | .operand name :: rest => ofCommand? environment outer name rest
  | _ => none

/-- The request of some arguments. `environment` is the path of the settings that is set there. -/
def ofArguments? (environment : Option Text) (arguments : List Text) : Option Request :=
  ofWords? environment .empty (words arguments)

end Request

end FieldFill
