import FieldFill.Files.Replace
import FieldFill.Plan.AtLine
import FieldFill.Plan.Document
import FieldFill.Settings.Reading

/-!
# Processing files

Files are planned one by one, and changed ones are written back if that is asked for. A file that
fails is reported and does not keep the others from being processed.

* `RunFault` — why a file or the settings could not be processed, with the whole chain of causes.
* `FileReport` — what happened to a file.
* `processFiles` — every class of every file.
* `processLine` — the initializer around a line of one file.
* `loadSettings` — settings from a file, or the defaults.
-/

namespace FieldFill

/-! ## Faults -/

inductive RunFault where
  | file (fault : FileFault)
  | plan (path : Text) (fault : PlanFault)
  | settings (fault : SettingsFault)
  | settingsNotFound (path : Text)
  deriving DecidableEq, Repr

namespace RunFault

/-- The message with every cause behind it. A cause that a message ends in already is given once
more. -/
def chain : RunFault → String
  | file fault => fault.message ++ ": " ++ fault.cause.message
  | plan path fault =>
    let causes :=
      match fault with
      | .signature _ cause => fault.message ++ ": " ++ cause.message
      | _ => fault.message
    "Failed to generate assignments in " ++ String.ofList path ++ ": " ++ causes
  | settings fault => "Failed to load generation configuration: " ++ fault.message
  | settingsNotFound path => "Configuration file not found: " ++ String.ofList path

end RunFault

/-! ## Reports -/

structure FileReport where
  path : Text
  /-- Whether there is something to insert. -/
  changed : Bool
  written : Bool
  reports : List Report
  /-- Why the file could not be read or written. -/
  error : Option String
  deriving DecidableEq, Repr

namespace FileReport

def hasFailures (r : FileReport) : Bool :=
  r.error.isSome || r.reports.any fun report => report.outcome.isFailed

end FileReport

/-! ## Files -/

/-- Reports a plan for a file, written back if that is asked for and something changes. -/
def finishFile (tree : FileTree) (path source : Text) (plan : Plan) (write : Bool) :
    Except RunFault FileReport × FileTree :=
  let report := fun written : Bool =>
    (⟨path, !plan.isUnchanged, written, plan.reports, none⟩ : FileReport)
  if write && !plan.isUnchanged then
    match replaceFile tree path ((plan.apply source).getD source) with
    | (.ok (), next) => (.ok (report true), next)
    | (.error fault, next) => (.error (.file fault), next)
  else (.ok (report false), tree)

def processFile (settings : Settings) (write : Bool) (tree : FileTree) (path : Text) :
    Except RunFault FileReport × FileTree :=
  match fileText tree path with
  | .error fault => (.error (.file fault), tree)
  | .ok source => finishFile tree path source (planDocument source settings) write

/-- The report of a file that was processed or failed. -/
def reportOf (path : Text) : Except RunFault FileReport → FileReport
  | .ok report => report
  | .error fault => ⟨path, false, false, [], some fault.chain⟩

/-- Processes files in order, with a report for each. -/
def processFiles (settings : Settings) (write : Bool) (tree : FileTree) :
    List Text → List FileReport × FileTree
  | [] => ([], tree)
  | path :: more =>
    let (result, next) := processFile settings write tree path
    let (reports, last) := processFiles settings write next more
    (reportOf path result :: reports, last)

def processLine (settings : Settings) (write : Bool) (tree : FileTree) (path : Text) (line : Nat) :
    Except RunFault FileReport × FileTree :=
  match fileText tree path with
  | .error fault => (.error (.file fault), tree)
  | .ok source =>
    match planAtLine source line settings with
    | .error fault => (.error (.plan path fault), tree)
    | .ok plan => finishFile tree path source plan write

/-! ## Settings -/

/-- The settings in a file, or the defaults when no file is given. -/
def loadSettings (tree : FileTree) : Option Text → Except RunFault Settings
  | none => .ok .default
  | some path =>
    match fileExists tree path with
    | .error fault => .error (.file fault)
    | .ok false => .error (.settingsNotFound path)
    | .ok true =>
      match fileText tree path with
      | .error fault => .error (.file fault)
      | .ok text => (Settings.parse path text).mapError RunFault.settings

end FieldFill
