import FieldFill.Text.Basic

/-!
# Faults of a parameter list

Why a text cannot be cut into parameters. Every fault names a byte position in the text that was
scanned: that of the opening bracket, the opening quote or the closing bracket it is about.
-/

namespace FieldFill

inductive SignatureFault where
  /-- `depth` brackets are still open at the end; `offset` is where the outermost one opened. -/
  | unterminatedNesting (depth offset : Nat)
  /-- A string is still open at the end; `quote` is the delimiter that opened it. -/
  | unterminatedString (quote : Text) (offset : Nat)
  /-- A bracket closes while none is open. -/
  | unbalancedCloser (closer : Char) (offset : Nat)
  deriving DecidableEq, Repr

namespace SignatureFault

def offset : SignatureFault → Nat
  | unterminatedNesting _ offset => offset
  | unterminatedString _ offset => offset
  | unbalancedCloser _ offset => offset

/-- The same fault in a text with `distance` more bytes in front. -/
def shift (distance : Nat) : SignatureFault → SignatureFault
  | unterminatedNesting depth offset => unterminatedNesting depth (offset + distance)
  | unterminatedString quote offset => unterminatedString quote (offset + distance)
  | unbalancedCloser closer offset => unbalancedCloser closer (offset + distance)

def message : SignatureFault → String
  | unterminatedNesting depth offset =>
    "unterminated nesting: " ++ toString depth ++
      " bracket(s) still open, outermost opened at offset " ++ toString offset
  | unterminatedString quote offset =>
    "unterminated string literal opened with " ++ String.ofList quote ++
      " at offset " ++ toString offset
  | unbalancedCloser closer offset =>
    "unbalanced closing '" ++ String.singleton closer ++ "' at offset " ++ toString offset

end SignatureFault

end FieldFill
