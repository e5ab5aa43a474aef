import FieldFill.Lexical.Fault
import FieldFill.Outline.Header
import FieldFill.Text.Quoted

/-!
# Why there is no plan

The faults of planning at a line, and the one a report can carry, with their messages. Lines are
counted from one.
-/

namespace FieldFill

inductive PlanFault where
  /-- The parameter list of a class's initializer could not be cut. -/
  | signature (className : Text) (fault : SignatureFault)
  /-- Another function or class, `found`, stands between the line and any initializer. -/
  | notInsideInitializer (line : Nat) (found : Text)
  | noInitializerAbove (line : Nat)
  | inlineBody (className : Text) (line : Nat)
  | lineOutOfRange (line total : Nat)
  deriving DecidableEq, Repr

namespace PlanFault

/-- The initializer of a class, as messages name it. -/
def initializerOf (className : Text) : String :=
  String.ofList (className ++ '.' :: initializerName)

def message : PlanFault → String
  | signature className fault =>
    "Failed to parse " ++ initializerOf className ++ ": " ++ fault.message
  | notInsideInitializer line found =>
    "Line " ++ toString line ++ " is not inside an __init__ method (found " ++
      String.ofList (quoted found) ++ " first)"
  | noInitializerAbove line => "No __init__ method found above line " ++ toString line
  | inlineBody className line =>
    initializerOf className ++ " at line " ++ toString line ++
      " has its body on the header line"
  | lineOutOfRange line total =>
    "Line " ++ toString line ++ " is out of range (document has " ++ toString total ++ " lines)"

end PlanFault

end FieldFill
