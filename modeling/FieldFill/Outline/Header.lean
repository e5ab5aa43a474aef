import FieldFill.Text.Letter

/-!
# Header lines, recognised by their text

How the first line of a function or a class is recognised where a program need not be valid: by
the words the line starts with, with any blanks between them.

* `initializerHead?` — `def __init__ (` right at the start of a text.
* `findInitializer?` — the first place in a text where that stands.
* `isFunctionHead`, `classHead?` — the header line of a function, and of a class with its name.
-/

namespace FieldFill

def initializerName : Text :=
  ['_', '_', 'i', 'n', 'i', 't', '_', '_']

/-- What follows at least one blank and all further ones. -/
def afterBlanks? : Text → Option Text
  | c :: rest => if isBlank c then some (trimStart rest) else none
  | [] => none

/-- The text from the opening parenthesis on, when a text starts with the header of an
initializer. -/
def initializerHead? (text : Text) : Option Text := do
  let rest ← after? ['d', 'e', 'f'] text
  let rest ← afterBlanks? rest
  let rest ← after? initializerName rest
  match trimStart rest with
  | '(' :: inside => some ('(' :: inside)
  | _ => none

/-- The header in steps, each of which reads on where the one before it stopped. -/
theorem initializerHead?_eq (text : Text) :
    initializerHead? text = ((after? ['d', 'e', 'f'] text).bind afterBlanks?).bind fun name =>
      (after? initializerName name).bind fun rest =>
        if (trimStart rest).head? = some '(' then some (trimStart rest) else none := by
  rw [initializerHead?, Option.bind_assoc]
  refine congrArg (Option.bind _) (funext fun behind => congrArg (Option.bind _) (funext fun name =>
    congrArg (Option.bind _) (funext fun rest => ?_)))
  -- the rest is looked at by its first character
  cases trimStart rest with
  | nil => rfl
  | cons c inside =>
    by_cases hc : c = '('
    · subst hc
      rfl
    · simp [hc]

/-- The text before the opening parenthesis of the first initializer header in a text, and the
text from the parenthesis on. -/
def findInitializer? : Text → Option (Text × Text)
  | [] => none
  | c :: rest =>
    match initializerHead? (c :: rest) with
    | some tail => some ((c :: rest).take ((c :: rest).length - tail.length), tail)
    | none => (findInitializer? rest).map fun (before, tail) => (c :: before, tail)

/-- Whether a text goes on with `def`, a name and an opening parenthesis. -/
def isDefinition (text : Text) : Bool :=
  match (after? ['d', 'e', 'f'] text).bind afterBlanks? with
  | some name =>
    name.head?.any isWord && (trimStart (name.dropWhile isWord)).head? = some '('
  | none => false

/-- Whether a line is the header of a function, with `async` in front or not. -/
def isFunctionHead (line : Text) : Bool :=
  let text := trimStart line
  isDefinition text ||
    ((after? ['a', 's', 'y', 'n', 'c'] text).bind afterBlanks?).any isDefinition

/-- The name in the header line of a class. -/
def classHead? (line : Text) : Option Text :=
  match (after? ['c', 'l', 'a', 's', 's'] (trimStart line)).bind afterBlanks? with
  | some rest =>
    let name := rest.takeWhile isWord
    if name.isEmpty then none else some name
  | none => none

end FieldFill
