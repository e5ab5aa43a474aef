import FieldFill.Files.Tree

/-!
# Commands

What the program can be asked to do, and what it answers.

* `Command` — the work itself.
* `Invocation` — the work with the choices that hold for all of it.
* `Reply` — what is printed, and the status that the program ends with.
-/

namespace FieldFill

inductive Format where
  | text
  | json
  deriving DecidableEq, Repr

def Format.name : Format → String
  | text => "text"
  | json => "json"

def Format.ofName? (name : Text) : Option Format :=
  [text, json].find? fun format => format.name.toList = name

inductive Command where
  /-- Every class of some files. `force` fills bodies that hold statements too. -/
  | generate (paths : List Text) (write force : Bool)
  /-- The initializer around a line of a file. -/
  | atLine (path : Text) (line : Nat) (write : Bool)
  /-- A bare parameter list; without a text it is the standard input. -/
  | signature (text : Option Text)
  deriving DecidableEq, Repr

/-- The files that a command works on. -/
def Command.paths : Command → List Text
  | .generate paths _ _ => paths
  | .atLine path _ _ => [path]
  | .signature _ => []

structure Invocation where
  settingsPath : Option Text
  /-- Names that are receivers besides those of the settings. -/
  receivers : List Text
  format : Format
  command : Command
  deriving DecidableEq, Repr

inductive Request where
  | version
  | run (invocation : Invocation)
  deriving DecidableEq, Repr

inductive Status where
  | success
  /-- A file, the settings or a place in a file could not be made sense of. -/
  | failure
  /-- A parameter list could not be cut. -/
  | unparsed
  deriving DecidableEq, Repr

namespace Status

def code : Status → Nat
  | success => 0
  | failure => 1
  | unparsed => 2

end Status

structure Reply where
  status : Status
  output : Text
  /-- What goes to the standard error stream. -/
  complaint : Text
  deriving DecidableEq, Repr

end FieldFill
