import FieldFill.Lexical.Closing
import FieldFill.Outline.Locate
import FieldFill.Parameter.Assignment
import FieldFill.Plan.Basic
import FieldFill.Plan.Fault

/-!
# Planning a whole document

Every class of a document gets a report, in document order, and every initializer that may be
filled gets one insertion. A parameter list that cannot be cut fails its own class only.

* `signatureFrom` — the parameter list that opens at a byte position.
* `planClass` — the report of one class, and its insertion.
* `planEntries`, `planDocument` — the plan for an outline, and for a document.
-/

namespace FieldFill

/-- The text between the parenthesis at a byte position and the one that closes it. -/
def signatureFrom (source : Text) (openParen : Nat) : Except SignatureFault Text :=
  match splitAt? source openParen with
  | some (_, tail) =>
    match toClosing tail with
    | .ok (enclosed, _) => .ok (enclosed.drop 1)
    | .error fault => .error (fault.shift openParen)
  | none => .error (.unterminatedNesting 1 openParen)

/-- Why a header that could not be read as a function is left alone. -/
def unparsedDiagnostic (source : Text) (className : Text) (line openParen : Nat) : String :=
  match signatureFrom source openParen with
  | .error fault => (PlanFault.signature className fault).message
  | .ok _ =>
    PlanFault.initializerOf className ++ " at line " ++ toString line ++
      " is not valid Python, leaving it unchanged"

/-- The outcome of filling a body with statements, and the insertion for it. -/
def fillBody (settings : Settings) (statements : List Text) (body : Body) :
    Outcome × Option Insertion :=
  match body with
  | .inline => (.skipped .inlineBody, none)
  | .block insertAt indent shape =>
    if shape = .nonTrivial && settings.bodyPolicy = .trivialOnly then
      (.skipped .nonTrivialBody, none)
    else (.generated statements, some ⟨insertAt, indent, statements⟩)

def planInitializer (source : Text) (settings : Settings) (className : Text)
    (initializer : Initializer) : Outcome × Option Insertion :=
  match signatureFrom source initializer.openParen >>= assignments settings with
  | .error fault => (.failed (PlanFault.signature className fault).message, none)
  | .ok [] => (.nothingToGenerate, none)
  | .ok made => fillBody settings (made.map Assignment.render) initializer.body

def planClass (source : Text) (settings : Settings) (entry : ClassEntry) :
    Report × Option Insertion :=
  match entry.lookup with
  | .missing => (⟨entry.name, entry.line, .noInitializer⟩, none)
  | .multiple count =>
    (⟨entry.name, entry.line, .skipped (.multipleInitializers count)⟩, none)
  | .unparsed line openParen =>
    (⟨entry.name, line, .failed (unparsedDiagnostic source entry.name line openParen)⟩, none)
  | .found initializer =>
    let (outcome, insertion) := planInitializer source settings entry.name initializer
    (⟨entry.name, initializer.line, outcome⟩, insertion)

/-- The plan for a document with a given outline. -/
def planEntries (source : Text) (settings : Settings) (entries : List ClassEntry) : Plan :=
  let planned := entries.map (planClass source settings)
  ⟨planned.map Prod.fst, planned.filterMap Prod.snd⟩

def planDocument (source : Text) (settings : Settings) : Plan :=
  planEntries source settings (locate source)

end FieldFill
