import FieldFill.Command.Basic
import FieldFill.Files.Process
import FieldFill.Json.Value

/-!
# Output

How reports are written for a reader and as JSON.

* `FileReport.describe` — the lines for one file.
* `FileReport.toJson`, `signatureJson` — the same as values. Members that say nothing are left out.
-/

namespace FieldFill

def asLine (text : Text) : Text :=
  text ++ ['\n']

/-! ## For a reader -/

namespace Skip

def describe : Skip → String
  | nonTrivialBody => "skipped, body already has statements"
  | inlineBody => "skipped, body is on the header line"
  | multipleInitializers count => "skipped, __init__ is defined " ++ toString count ++ " times"

end Skip

namespace Outcome

def describe : Outcome → String
  | generated statements => "generated " ++ toString statements.length ++ " assignment(s)"
  | nothingToGenerate => "nothing to generate"
  | noInitializer => "no __init__"
  | skipped skip => skip.describe
  | failed diagnostic => "failed: " ++ diagnostic

/-- The statements that an outcome asks to insert. -/
def statements : Outcome → List Text
  | generated statements => statements
  | _ => []

end Outcome

namespace Report

def describe (r : Report) : Text :=
  asLine ("  ".toList ++ r.className ++ " (line ".toList ++ (toString r.line).toList ++
      "): ".toList ++ r.outcome.describe.toList) ++
    r.outcome.statements.flatMap fun statement => asLine ("      ".toList ++ statement)

end Report

namespace FileReport

def status (r : FileReport) : Text :=
  match r.error, r.written with
  | some error, _ => (" (error: " ++ error ++ ")").toList
  | none, true => " (written)".toList
  | none, false => []

def describe (r : FileReport) : Text :=
  asLine (r.path ++ r.status) ++ r.reports.flatMap Report.describe

/-- The statements alone, one on each line. -/
def statementLines (r : FileReport) : Text :=
  r.reports.flatMap fun report => report.outcome.statements.flatMap asLine

end FileReport

/-! ## As JSON -/

namespace JsonValue

def member (name : String) (value : JsonValue) : Text × JsonValue :=
  (name.toList, value)

def string (s : String) : JsonValue :=
  text s.toList

/-- A value as a whole document. -/
def document (value : JsonValue) : Text :=
  asLine (value.pretty 0)

end JsonValue

open JsonValue (member)

def Skip.toJson : Skip → JsonValue
  | nonTrivialBody => .object [member "reason" (.string "non_trivial_body")]
  | inlineBody => .object [member "reason" (.string "inline_body")]
  | multipleInitializers count =>
    .object [member "reason" (.string "multiple_initializers"), member "count" (.number count)]

/-- The members of a report that say what happened. -/
def Outcome.members : Outcome → List (Text × JsonValue)
  | generated statements =>
    [member "outcome" (.string "generated"),
      member "statements" (.list (statements.map JsonValue.text))]
  | nothingToGenerate => [member "outcome" (.string "nothing_to_generate")]
  | noInitializer => [member "outcome" (.string "no_initializer")]
  | skipped skip => [member "outcome" (.string "skipped"), member "skip" skip.toJson]
  | failed diagnostic =>
    [member "outcome" (.string "failed"), member "diagnostic" (.string diagnostic)]

def Report.toJson (r : Report) : JsonValue :=
  .object (member "class_name" (.text r.className) :: member "line" (.number r.line) ::
    r.outcome.members)

def FileReport.toJson (r : FileReport) : JsonValue :=
  .object ([member "path" (.text r.path), member "changed" (.bool r.changed),
    member "written" (.bool r.written), member "reports" (.list (r.reports.map Report.toJson))] ++
    (r.error.map fun error => member "error" (.string error)).toList)

def Role.name : Role → String
  | receiver => "receiver"
  | ordinary => "ordinary"
  | variadicPositional => "variadic_positional"
  | variadicKeyword => "variadic_keyword"

def Parameter.toJson (p : Parameter) : JsonValue :=
  .object [member "name" (.text p.name), member "kind" (.string p.role.name),
    member "has_annotation" (.bool p.annotated), member "has_default" (.bool p.defaulted)]

def Assignment.toJson (a : Assignment) : JsonValue :=
  .object [member "receiver" (.text a.receiver), member "attribute" (.text a.target),
    member "value" (.text a.value)]

def signatureJson (parameters : List Parameter) (made : List Assignment) : JsonValue :=
  .object [member "parameters" (.list (parameters.map Parameter.toJson)),
    member "statements" (.list (made.map Assignment.toJson))]

end FieldFill
