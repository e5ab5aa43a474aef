import FieldFill.Text.Basic

/-!
# The outline of a document

Every class of a program with what was found of its initializer, and where the statements for it
would go.
-/

namespace FieldFill

/-- Whether a body holds nothing but `pass`, `...`, strings and comments. -/
inductive Shape where
  | trivial
  | nonTrivial
  deriving DecidableEq, Repr

inductive Body where
  /-- The body starts on the header line. -/
  | inline
  /-- The body stands on lines of its own. Statements go to the line start `insertAt`. -/
  | block (insertAt : Nat) (indent : Text) (shape : Shape)
  deriving DecidableEq, Repr

structure Initializer where
  /-- The line of the header, from one. -/
  line : Nat
  /-- The byte position of the parenthesis that opens the parameter list. -/
  openParen : Nat
  body : Body
  deriving DecidableEq, Repr

inductive Lookup where
  | missing
  | multiple (count : Nat)
  | found (initializer : Initializer)
  /-- A header that could not be read as a function; only its place is known. -/
  | unparsed (line openParen : Nat)
  deriving DecidableEq, Repr

structure ClassEntry where
  name : Text
  /-- The line of the `class` keyword, from one. -/
  line : Nat
  lookup : Lookup
  deriving DecidableEq, Repr

end FieldFill
