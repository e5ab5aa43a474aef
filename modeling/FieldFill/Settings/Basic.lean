import FieldFill.Text.Basic

/-!
# Settings

What a user can choose: which parameter names count as receivers, the receiver to use when a
signature has none, one level of indentation, and which bodies may be filled.
-/

namespace FieldFill

inductive BodyPolicy where
  /-- Only bodies of `pass`, `...`, strings and comments. -/
  | trivialOnly
  | always
  deriving DecidableEq, Repr

structure Settings where
  receiverNames : List Text
  defaultReceiver : Text
  indentUnit : Text
  bodyPolicy : BodyPolicy
  deriving DecidableEq, Repr

namespace Settings

def default : Settings where
  receiverNames := ["self".toList, "cls".toList]
  defaultReceiver := "self".toList
  indentUnit := "    ".toList
  bodyPolicy := .trivialOnly

/-- Adds receiver names in order, leaving out those that are there already. -/
def withReceivers (s : Settings) (names : List Text) : Settings :=
  { s with
    receiverNames := names.foldl
      (fun known name => if known.contains name then known else known ++ [name])
      s.receiverNames }

def withBodyPolicy (s : Settings) (policy : BodyPolicy) : Settings :=
  { s with bodyPolicy := policy }

end Settings

end FieldFill
