import FieldFill.Parameter.Basic
import FieldFill.Settings.Basic

/-!
# Assignments

The statements that store ordinary parameters as attributes of the receiver, one for each, in the
order of the signature.
-/

namespace FieldFill

structure Assignment where
  receiver : Text
  target : Text
  value : Text
  deriving DecidableEq, Repr

namespace Assignment

def render (a : Assignment) : Text :=
  a.receiver ++ '.' :: a.target ++ [' ', '=', ' '] ++ a.value

end Assignment

/-- The receiver that a signature names itself, or else the one of the settings. -/
def receiverOf (settings : Settings) (parameters : List Parameter) : Text :=
  match parameters.find? (fun p => p.role = .receiver) with
  | some p => p.name
  | none => settings.defaultReceiver

def assign (receiver : Text) (parameters : List Parameter) : List Assignment :=
  (parameters.filter Parameter.isOrdinary).map fun p => ⟨receiver, p.name, p.name⟩

/-- The assignments for the text between the parentheses of a signature. -/
def assignments (settings : Settings) (text : Text) : Except SignatureFault (List Assignment) :=
  (parameters settings.receiverNames text).map fun list => assign (receiverOf settings list) list

end FieldFill
