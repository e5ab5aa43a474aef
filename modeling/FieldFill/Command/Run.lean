import FieldFill.Command.Arguments
import FieldFill.Command.Output

/-!
# Running commands

The answer to a request. All failures of a command are told apart by the status: it is `unparsed`
when a parameter list could not be cut, and `failure` when anything else went wrong, which counts
more.

* `runGenerate`, `runAtLine`, `runSignature` — the commands, with settings that are loaded.
* `Request.answer` — the reply to a request, with the tree it leaves behind.
-/

namespace FieldFill

/-- The reply of a command that came to nothing. -/
def complaint (status : Status) (message : String) : Reply :=
  ⟨status, [], asLine ("Error: " ++ message).toList⟩

/-! ## Commands -/

/-- Reports all files, even when one of them failed. -/
def generateReply (format : Format) (reports : List FileReport) : Reply :=
  let output :=
    match format with
    | .text => reports.flatMap FileReport.describe
    | .json => JsonValue.document (.list (reports.map FileReport.toJson))
  match reports.findSome? fun r => r.error.map fun error => (r.path, error) with
  | some (path, error) =>
    { complaint .failure ("Could not process " ++ String.ofList path ++ ": " ++ error) with output }
  | none => ⟨if reports.any FileReport.hasFailures then .unparsed else .success, output, []⟩

def runGenerate (settings : Settings) (format : Format) (paths : List Text) (write force : Bool)
    (tree : FileTree) : Reply × FileTree :=
  let settings := if force then settings.withBodyPolicy .always else settings
  let (reports, next) := processFiles settings write tree paths
  (generateReply format reports, next)

def atLineReply (format : Format) : Except RunFault FileReport → Reply
  | .ok report =>
    let output :=
      match format with
      | .text => report.statementLines
      | .json => JsonValue.document report.toJson
    ⟨.success, output, []⟩
  | .error fault =>
    match fault with
    | .plan _ (.signature ..) => complaint .unparsed fault.chain
    | _ => complaint .failure fault.chain

def runAtLine (settings : Settings) (format : Format) (path : Text) (row : Nat) (write : Bool)
    (tree : FileTree) : Reply × FileTree :=
  let (result, next) := processLine settings write tree path row
  (atLineReply format result, next)

def runSignature (settings : Settings) (format : Format) (text : Text) : Reply :=
  match parameters settings.receiverNames text with
  | .error fault => complaint .unparsed fault.message
  | .ok list =>
    let made := assign (receiverOf settings list) list
    let output :=
      match format with
      | .text => made.flatMap fun a => asLine a.render
      | .json => JsonValue.document (signatureJson list made)
    ⟨.success, output, []⟩

/-- The reply when the standard input is no text. -/
def unreadableInput : Reply :=
  complaint .failure
    ("Failed to read the parameter list from stdin: " ++ Refusal.notText.message)

/-! ## Requests -/

namespace Invocation

/-- Runs a command. `input` is the content of the standard input. -/
def run (i : Invocation) (input : Content) (tree : FileTree) : Reply × FileTree :=
  match loadSettings tree i.settingsPath with
  | .error fault => (complaint .failure fault.chain, tree)
  | .ok loaded =>
    let settings := loaded.withReceivers i.receivers
    match i.command, input with
    | .generate paths write force, _ => runGenerate settings i.format paths write force tree
    | .atLine path row write, _ => runAtLine settings i.format path row write tree
    | .signature (some text), _ => (runSignature settings i.format text, tree)
    | .signature none, .text text => (runSignature settings i.format text, tree)
    | .signature none, .binary _ => (unreadableInput, tree)

/-- The paths that a run can look at. -/
def paths (i : Invocation) : List Text :=
  i.settingsPath.toList ++ i.command.paths ++ i.command.paths.map stagedPath

/-- Whether a run looks at the standard input. -/
def readsInput (i : Invocation) : Bool :=
  i.command = .signature none

/-- The files whose text a run has changed, with the new text. -/
def changes (i : Invocation) (before after : FileTree) : List (Text × Text) :=
  i.command.paths.filterMap fun path =>
    match fileText before path, fileText after path with
    | .ok old, .ok new => if old = new then none else some (path, new)
    | .error _, .ok new => some (path, new)
    | _, .error _ => none

end Invocation

def versionText : String :=
  "init-assign 0.1.0"

namespace Request

def answer (request : Request) (input : Content) (tree : FileTree) : Reply × FileTree :=
  match request with
  | .version => (⟨.success, asLine versionText.toList, []⟩, tree)
  | .run invocation => invocation.run input tree

def paths : Request → List Text
  | .version => []
  | .run invocation => invocation.paths

def readsInput : Request → Bool
  | .version => false
  | .run invocation => invocation.readsInput

def changes (before after : FileTree) : Request → List (Text × Text)
  | .version => []
  | .run invocation => invocation.changes before after

end Request

end FieldFill
