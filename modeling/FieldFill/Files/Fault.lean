import FieldFill.Text.Basic

/-!
# Faults of file operations

Why the system refuses an operation on a file, and which operation on which path that was. Messages
hold the text that the system itself gives for the refusal.
-/

namespace FieldFill

inductive Refusal where
  | notFound
  | notDirectory
  | isDirectory
  | nameTooLong
  | busy
  | permissionDenied
  /-- The content of a file is no UTF-8 text. -/
  | notText
  /-- A path holds a NUL character. -/
  | nulInPath
  deriving DecidableEq, Repr

namespace Refusal

def message : Refusal → String
  | notFound => "No such file or directory (os error 2)"
  | notDirectory => "Not a directory (os error 20)"
  | isDirectory => "Is a directory (os error 21)"
  | nameTooLong => "File name too long (os error 36)"
  | busy => "Device or resource busy (os error 16)"
  | permissionDenied => "Permission denied (os error 13)"
  | notText => "stream did not contain valid UTF-8"
  | nulInPath => "file name contained an unexpected NUL byte"

end Refusal

inductive Operation where
  | read
  | checkExistence
  | inspect
  | write
  | setPermissions
  | replace
  deriving DecidableEq, Repr

namespace Operation

def name : Operation → String
  | read => "read"
  | checkExistence => "check existence"
  | inspect => "inspect"
  | write => "write"
  | setPermissions => "set permissions on"
  | replace => "replace"

end Operation

structure FileFault where
  operation : Operation
  path : Text
  cause : Refusal
  deriving DecidableEq, Repr

namespace FileFault

def message (f : FileFault) : String :=
  "Failed to " ++ f.operation.name ++ " '" ++ String.ofList f.path ++ "': " ++ f.cause.message

end FileFault

end FieldFill
