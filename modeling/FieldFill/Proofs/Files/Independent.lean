import FieldFill.Files.Process
import FieldFill.Proofs.Files.Replacing
import FieldFill.Proofs.Layout.Program
import FieldFill.Proofs.Plan.Applies
import Mathlib.Data.List.Perm.Basic

/-!
# Files are processed independently

Files are processed one after the other in one tree, which each of them may change. When they are
different files and none of them has a sibling yet, the changes do not meet: what is reported of a
file, and what becomes of it, can be read off the tree as it was in the beginning.

Main definitions:

* `FileState` — what the processing of a file depends on.
* `FileState.report`, `FileState.change?` — what is reported of the file, and what is put in its place.
* `FileTree.Unstaged` — a file has no sibling where its new content would go first.

Main results:

* `processFile_eq` — one file.
* `processFiles_eq` — all files, in terms of their states in the beginning.
* `processFiles_independent` — reports, contents and order.
-/

namespace FieldFill

/-! ## The state of a file -/

/-- What the processing of a file depends on. -/
structure FileState where
  path : Text
  /-- Where the path leads. -/
  place : Except Refusal Place
  /-- What stands there. -/
  node : Except Refusal Node
  /-- What the file reads as. -/
  text : Except FileFault Text
  /-- Why the file could not be replaced. -/
  fault? : Option FileFault
  deriving DecidableEq, Repr

def FileTree.stateOf (tree : FileTree) (path : Text) : FileState where
  path := path
  place := follow tree path
  node := tree.nodeAt path
  text := fileText tree path
  fault? := tree.replaceFault? path

namespace FileState

variable (s : FileState) (settings : Settings) (write : Bool)

/-- The report of a file in a state. -/
def report : FileReport :=
  match s.text with
  | .error fault => reportOf s.path (.error (.file fault))
  | .ok source =>
    let plan := planDocument source settings
    if write && !plan.isUnchanged then
      match s.fault? with
      | some fault => reportOf s.path (.error (.file fault))
      | none => ⟨s.path, true, true, plan.reports, none⟩
    else ⟨s.path, !plan.isUnchanged, false, plan.reports, none⟩

/-- The text that is written to a file in a state. -/
def newText? : Option Text :=
  match s.text, s.fault? with
  | .ok source, none =>
    let plan := planDocument source settings
    if write && !plan.isUnchanged then plan.apply source else none
  | _, _ => none

/-- What is put in the place of a file in a state: the new text, with the permissions of the file. -/
def change? : Option (Place × Node) :=
  match s.place, s.node, s.newText? settings write with
  | .ok place, .ok (.file _ mode), some text => some (place, .file (.text text) mode)
  | _, _, _ => none

/-- What stands at the path in the end. -/
def nodeAfter : Except Refusal Node :=
  match s.change? settings write with
  | some (_, node) => .ok node
  | none => s.node

end FileState

/-! ## Changes of a tree -/

namespace FileTree

/-- Puts nodes at places, one after the other. -/
def putAll (tree : FileTree) (changes : List (Place × Node)) : FileTree :=
  changes.foldl (fun tree change => tree.put change.1 change.2) tree

/-- A file is put in the place of a file. -/
def Replaces (tree : FileTree) (change : Place × Node) : Prop :=
  (∃ content mode, tree.node? change.1 = some (.file content mode)) ∧
    ∃ content mode, change.2 = .file content mode

variable {tree : FileTree} {changes : List (Place × Node)}

theorem Replaces.ne_nil {change : Place × Node} (h : tree.Replaces change) : change.1 ≠ [] := by
  obtain ⟨⟨content, mode, hNode⟩, -⟩ := h
  exact ne_nil_of_isFile hNode

theorem Replaces.sameWays {change : Place × Node} (h : tree.Replaces change) :
    SameWays tree (tree.put change.1 change.2) := by
  obtain ⟨⟨content, mode, hNode⟩, content', mode', hNew⟩ := h
  rw [hNew]
  exact sameWays_put hNode content' mode'

/-- After a change of one place, another one holds the same. -/
theorem Replaces.put {change other : Place × Node} (h : tree.Replaces change)
    (hOther : tree.Replaces other) : (tree.put change.1 change.2).Replaces other := by
  obtain ⟨⟨content, mode, hNode⟩, hNew⟩ := hOther
  refine ⟨?_, hNew⟩
  -- should both be changes of one place, it holds a file again
  rw [node?_put _ h.ne_nil]
  split
  · obtain ⟨-, content', mode', hChange⟩ := h
    exact ⟨content', mode', by rw [hChange]⟩
  · exact ⟨content, mode, hNode⟩

theorem sameWays_putAll (h : ∀ change ∈ changes, tree.Replaces change) :
    SameWays tree (tree.putAll changes) := by
  induction changes generalizing tree with
  | nil => exact SameWays.refl tree
  | cons change changes ih =>
    obtain ⟨hChange, hMore⟩ := List.forall_mem_cons.1 h
    exact hChange.sameWays.trans (ih fun other hOther => hChange.put (hMore other hOther))

theorem node?_putAll_of_ne (h : ∀ change ∈ changes, tree.Replaces change) {place : Place}
    (hne : ∀ change ∈ changes, change.1 ≠ place) :
    (tree.putAll changes).node? place = tree.node? place := by
  induction changes generalizing tree with
  | nil => rfl
  | cons change changes ih =>
    obtain ⟨hChange, hMore⟩ := List.forall_mem_cons.1 h
    obtain ⟨hHead, hTail⟩ := List.forall_mem_cons.1 hne
    refine (ih (fun other hOther => hChange.put (hMore other hOther)) hTail).trans ?_
    rw [node?_put _ hChange.ne_nil, if_neg fun hEq => hHead hEq.symm]

/-- A place holds what is put there when the others are different. -/
theorem node?_putAll_of_mem (h : ∀ change ∈ changes, tree.Replaces change)
    (hDifferent : changes.Pairwise fun a b => a.1 ≠ b.1) {change : Place × Node}
    (hMem : change ∈ changes) : (tree.putAll changes).node? change.1 = some change.2 := by
  induction changes generalizing tree with
  | nil => cases hMem
  | cons first changes ih =>
    obtain ⟨hFirst, hMore⟩ := List.forall_mem_cons.1 h
    obtain ⟨hApart, hTail⟩ := List.pairwise_cons.1 hDifferent
    have hLater : ∀ other ∈ changes, (tree.put first.1 first.2).Replaces other :=
      fun other hOther => hFirst.put (hMore other hOther)
    rcases List.mem_cons.1 hMem with rfl | hMem
    · -- the changes behind it are those of other places
      refine (node?_putAll_of_ne hLater fun other hOther => (hApart other hOther).symm).trans ?_
      rw [node?_put _ hFirst.ne_nil, if_pos rfl]
    · exact ih hLater hTail hMem

/-- **The order of changes of different places does not matter.** -/
theorem putAll_perm {others : List (Place × Node)} (hPerm : changes.Perm others)
    (h : ∀ change ∈ changes, tree.Replaces change)
    (hDifferent : changes.Pairwise fun a b => a.1 ≠ b.1) :
    tree.putAll changes = tree.putAll others := by
  induction hPerm generalizing tree with
  | nil => rfl
  | cons change _ ih =>
    obtain ⟨hChange, hMore⟩ := List.forall_mem_cons.1 h
    exact ih (fun other hOther => hChange.put (hMore other hOther)) (List.pairwise_cons.1 hDifferent).2
  | swap first second list =>
    obtain ⟨hSecond, hMore⟩ := List.forall_mem_cons.1 h
    obtain ⟨hFirst, -⟩ := List.forall_mem_cons.1 hMore
    have hne : second.1 ≠ first.1 :=
      (List.pairwise_cons.1 hDifferent).1 first (List.mem_cons_self ..)
    -- both places hold something before, so the entries keep their order
    obtain ⟨⟨content, mode, hNode⟩, -⟩ := id hSecond
    obtain ⟨⟨content', mode', hNode'⟩, -⟩ := id hFirst
    have hSwap := tree.put_comm (by rw [hNode]; rfl) hSecond.ne_nil (by rw [hNode']; rfl)
      hFirst.ne_nil hne second.2 first.2
    exact congrArg (fun tree => putAll tree list) hSwap
  | trans hLeft _ ihLeft ihRight =>
    -- the list in between has the same changes, of different places too
    refine (ihLeft h hDifferent).trans (ihRight (fun other hOther => ?_) ?_)
    · exact h other (hLeft.mem_iff.2 hOther)
    · exact hLeft.pairwise hDifferent fun hne => hne.symm

end FileTree

/-! ## One file -/

namespace FileTree

variable {t u tree : FileTree} {path : Text}

/-- No sibling of a file stands where its new content would go first. -/
def Unstaged (tree : FileTree) (path : Text) : Prop :=
  ∀ node, tree.nodeAt (stagedPath path) ≠ .ok node

theorem Unstaged.congr (h : t.Unstaged path) (hWays : SameWays t u) : u.Unstaged path := by
  intro node hNode
  unfold nodeAt at hNode
  rw [hWays.follow_eq] at hNode
  cases hFollow : follow t (stagedPath path) with
  | error refusal =>
    rw [hFollow] at hNode
    cases hNode
  | ok place =>
    rw [hFollow] at hNode
    dsimp only at hNode
    -- the place holds something in the other tree too
    have hHolds := hWays.holds place
    cases hPlace : t.node? place with
    | none =>
      rw [hPlace, Option.isSome_none, Option.isSome_eq_false_iff, Option.isNone_iff_eq_none] at hHolds
      rw [hHolds] at hNode
      cases hNode
    | some old =>
      refine h old ?_
      unfold nodeAt
      simp only [hFollow, hPlace]

/-- The state of a file depends on the ways, on what stands at its place, and on what the system
refuses. -/
theorem stateOf_congr (h : SameWays t u) (hObstacles : u.obstacles = t.obstacles)
    (hNode : ∀ place, follow t path = .ok place → u.node? place = t.node? place) :
    u.stateOf path = t.stateOf path := by
  have hFollow := h.follow_eq path
  have hNodeAt : u.nodeAt path = t.nodeAt path := by
    unfold nodeAt
    rw [hFollow]
    cases hPlace : follow t path with
    | error refusal => rfl
    | ok place =>
      dsimp only
      rw [hNode place hPlace]
  unfold stateOf
  rw [hFollow, hNodeAt, fileText_congr hObstacles hNodeAt, replaceFault?_congr h hObstacles]

/-- What is put in the place of a file replaces a file, which the path leads to. -/
theorem replaces_of_change? {settings : Settings} {write : Bool} {change : Place × Node}
    (h : (tree.stateOf path).change? settings write = some change) :
    tree.Replaces change ∧ follow tree path = .ok change.1 := by
  unfold FileState.change? stateOf at h
  dsimp only at h
  split at h
  · rename_i place content mode text hPlace hNode hText
    obtain rfl := Option.some.inj h
    refine ⟨⟨⟨content, mode, ?_⟩, _, _, rfl⟩, hPlace⟩
    unfold nodeAt at hNode
    simp only [hPlace] at hNode
    split at hNode
    · rename_i node hSome
      obtain rfl := Except.ok.inj hNode
      exact hSome
    · cases hNode
  · cases h

end FileTree

section

variable {tree : FileTree} {path : Text}

/-- **One file.** What is reported of it, and what it becomes, is given by its state. -/
theorem processFile_eq (settings : Settings) (write : Bool) (hUnstaged : tree.Unstaged path) :
    reportOf path (processFile settings write tree path).1 =
        (tree.stateOf path).report settings write ∧
      (processFile settings write tree path).2 =
        tree.putAll ((tree.stateOf path).change? settings write).toList := by
  unfold processFile FileState.report FileState.change? FileState.newText? FileTree.stateOf
  cases hText : fileText tree path with
  | error fault =>
    -- a file that cannot be read has no new text, wherever it is
    refine ⟨rfl, ?_⟩
    cases follow tree path <;> cases tree.nodeAt path <;> simp [FileTree.putAll]
  | ok source =>
    obtain ⟨-, place, mode, hFile⟩ := FileTree.fileText_eq_ok_iff.1 hText
    obtain ⟨out, hOut⟩ := exists_apply_planDocument source settings
    have hReplace := hFile.replaceFile_eq out
    rw [FileTree.withoutStaged_eq hUnstaged] at hReplace
    simp only [finishFile, hFile.follow, hFile.nodeAt_eq, hOut, Option.getD_some]
    cases hWrite : write && !(planDocument source settings).isUnchanged with
    | false =>
      -- nothing is planned, or nothing is to be written
      refine ⟨rfl, ?_⟩
      cases tree.replaceFault? path <;> simp [hWrite, FileTree.putAll]
    | true =>
      have hChanged : (!(planDocument source settings).isUnchanged) = true :=
        (Bool.and_eq_true_iff.1 hWrite).2
      cases hFault : tree.replaceFault? path with
      | some fault =>
        -- a refused replacement leaves the tree as it was, whichever step was refused
        simp only [hFault, ite_self] at hReplace
        rw [if_pos rfl, hReplace]
        exact ⟨rfl, rfl⟩
      | none =>
        simp only [hFault] at hReplace
        rw [if_pos rfl, hReplace, hChanged]
        simp [hWrite, hOut, reportOf, FileTree.putAll]

end

/-! ## All files -/

namespace FileTree

variable {tree : FileTree}

instance : DecidablePred tree.Unstaged := fun path =>
  decidable_of_iff (tree.nodeAt (stagedPath path)).toOption.isNone <| by
    unfold Unstaged
    cases tree.nodeAt (stagedPath path) <;> simp [Except.toOption]

variable {paths : List Text} {settings : Settings} {write : Bool}

theorem Different.congr {t u : FileTree} {a b : Text} (h : t.Different a b) (hWays : SameWays t u) :
    u.Different a b := by
  intro place
  rw [hWays.follow_eq, hWays.follow_eq]
  exact h place

theorem putAll_append (tree : FileTree) (a b : List (Place × Node)) :
    tree.putAll (a ++ b) = (tree.putAll a).putAll b :=
  List.foldl_append

/-- The changes for some files. -/
def changesFor (tree : FileTree) (settings : Settings) (write : Bool) (paths : List Text) :
    List (Place × Node) :=
  paths.filterMap fun path => (tree.stateOf path).change? settings write

theorem replaces_of_mem_changesFor {change : Place × Node}
    (h : change ∈ tree.changesFor settings write paths) :
    tree.Replaces change ∧ ∃ path ∈ paths, follow tree path = .ok change.1 := by
  obtain ⟨path, hPath, hChange⟩ := List.mem_filterMap.1 h
  obtain ⟨hReplaces, hFollow⟩ := replaces_of_change? hChange
  exact ⟨hReplaces, path, hPath, hFollow⟩

theorem pairwise_changesFor (hDifferent : paths.Pairwise tree.Different) :
    (tree.changesFor settings write paths).Pairwise fun a b => a.1 ≠ b.1 := by
  unfold changesFor
  rw [List.pairwise_filterMap]
  refine hDifferent.imp fun hApart a ha b hb hEq => ?_
  obtain ⟨-, hFollow⟩ := replaces_of_change? ha
  obtain ⟨-, hFollow'⟩ := replaces_of_change? hb
  exact hApart a.1 hFollow (hEq ▸ hFollow')

end FileTree

section

variable {tree : FileTree} {path : Text} {paths : List Text}

/-- The change of a file leaves the state of another one as it is. -/
theorem stateOf_after_change {settings : Settings} {write : Bool} {other : Text}
    (h : tree.Different path other) :
    (tree.putAll ((tree.stateOf path).change? settings write).toList).stateOf other =
      tree.stateOf other := by
  cases hChange : (tree.stateOf path).change? settings write with
  | none => rfl
  | some change =>
    obtain ⟨hReplaces, hFollow⟩ := FileTree.replaces_of_change? hChange
    refine FileTree.stateOf_congr hReplaces.sameWays (tree.obstacles_put _) fun place hPlace => ?_
    have hne : place ≠ change.1 := fun hEq => h place (hEq ▸ hFollow) hPlace
    show (tree.put change.1 change.2).node? place = _
    rw [FileTree.node?_put _ hReplaces.ne_nil, if_neg hne]

theorem sameWays_after_change (tree : FileTree) (path : Text) (settings : Settings) (write : Bool) :
    SameWays tree (tree.putAll ((tree.stateOf path).change? settings write).toList) := by
  refine FileTree.sameWays_putAll fun change hChange => ?_
  exact (FileTree.replaces_of_change? (Option.mem_toList.1 hChange)).1

/-- **All files.** Each is reported and changed by its state in the beginning. -/
theorem processFiles_eq (settings : Settings) (write : Bool)
    (hDifferent : paths.Pairwise tree.Different) (hUnstaged : ∀ path ∈ paths, tree.Unstaged path) :
    processFiles settings write tree paths =
      (paths.map fun path => (tree.stateOf path).report settings write,
        tree.putAll (tree.changesFor settings write paths)) := by
  induction paths generalizing tree with
  | nil => rfl
  | cons path more ih =>
    obtain ⟨hPath, hMore⟩ := List.forall_mem_cons.1 hUnstaged
    obtain ⟨hApart, hTail⟩ := List.pairwise_cons.1 hDifferent
    obtain ⟨hReport, hNext⟩ := processFile_eq settings write hPath
    have hWays := sameWays_after_change tree path settings write
    -- the state of every later file is still that of the beginning
    have hState : ∀ other ∈ more,
        (tree.putAll ((tree.stateOf path).change? settings write).toList).stateOf other =
          tree.stateOf other := fun other hOther => stateOf_after_change (hApart other hOther)
    have hRest := ih (hTail.imp fun h => h.congr hWays) fun other hOther =>
      (hMore other hOther).congr hWays
    rw [processFiles]
    dsimp only
    rw [hReport, hNext, hRest, List.map_cons, ← FileTree.putAll_append]
    refine Prod.ext ?_ ?_
    · refine congrArg (_ :: ·) (List.map_congr_left fun other hOther => ?_)
      rw [hState other hOther]
    · dsimp only
      congr 1
      unfold FileTree.changesFor
      rw [List.filterMap_cons]
      have hChanges : more.filterMap (fun other =>
          ((tree.putAll ((tree.stateOf path).change? settings write).toList).stateOf other).change?
            settings write) =
          more.filterMap fun other => (tree.stateOf other).change? settings write :=
        List.filterMap_congr fun other hOther => by rw [hState other hOther]
      rw [hChanges]
      cases (tree.stateOf path).change? settings write <;> rfl

/-- Without writing, the tree stays as it is. -/
theorem processFiles_false (settings : Settings) (tree : FileTree) (paths : List Text) :
    (processFiles settings false tree paths).2 = tree := by
  induction paths with
  | nil => rfl
  | cons path more ih =>
    have hFile : (processFile settings false tree path).2 = tree := by
      unfold processFile
      cases fileText tree path with
      | error fault => rfl
      | ok source => rfl
    rw [processFiles]
    dsimp only
    rw [hFile, ih]

/-- Unless it fails, writing makes no difference for the report of a file but that it is written. -/
theorem FileState.report_false (s : FileState) (settings : Settings)
    (h : ∀ source, s.text = .ok source → (s.report settings true).error = none) :
    s.report settings false = { s.report settings true with written := false } := by
  unfold FileState.report at h ⊢
  cases hText : s.text with
  | error fault => rfl
  | ok source =>
    have hError := h source hText
    simp only [hText, Bool.true_and, Bool.false_and, Bool.false_eq_true, if_false] at hError ⊢
    -- only an unwritten change makes a difference between the two reports
    cases hUnchanged : (planDocument source settings).isUnchanged with
    | true => simp
    | false =>
      rw [hUnchanged] at hError
      cases hFault : s.fault? with
      | none => simp
      | some fault =>
        rw [hFault] at hError
        cases hError

/-- What stands at the path of a file in the end is given by its state. -/
theorem nodeAt_putAll (settings : Settings) (write : Bool)
    (hDifferent : paths.Pairwise tree.Different) (hPath : path ∈ paths) :
    (tree.putAll (tree.changesFor settings write paths)).nodeAt path =
      (tree.stateOf path).nodeAfter settings write := by
  have hReplaces : ∀ change ∈ tree.changesFor settings write paths, tree.Replaces change :=
    fun change hChange => (FileTree.replaces_of_mem_changesFor hChange).1
  have hFollow := (FileTree.sameWays_putAll hReplaces).follow_eq path
  unfold FileState.nodeAfter
  cases hChange : (tree.stateOf path).change? settings write with
  | some change =>
    have hMem : change ∈ tree.changesFor settings write paths :=
      List.mem_filterMap.2 ⟨path, hPath, hChange⟩
    have hNode := FileTree.node?_putAll_of_mem hReplaces (FileTree.pairwise_changesFor hDifferent) hMem
    unfold FileTree.nodeAt
    simp only [hFollow, (FileTree.replaces_of_change? hChange).2, hNode]
  | none =>
    show _ = tree.nodeAt path
    unfold FileTree.nodeAt
    rw [hFollow]
    cases hPlace : follow tree path with
    | error refusal => rfl
    | ok place =>
      -- the changes are those of other files, which are at other places
      have hne : ∀ change ∈ tree.changesFor settings write paths, change.1 ≠ place := by
        intro change hMem hEq
        obtain ⟨other, hOther, hSome⟩ := List.mem_filterMap.1 hMem
        have hLeads := (FileTree.replaces_of_change? hSome).2
        have hNot : path ≠ other := by
          rintro rfl
          rw [hSome] at hChange
          cases hChange
        have hSymm : Std.Symm tree.Different := ⟨fun _ _ h => h.symm⟩
        exact hDifferent.forall hPath hOther hNot place hPlace (hEq ▸ hLeads)
      dsimp only
      rw [FileTree.node?_putAll_of_ne hReplaces hne]

/-- **Files are processed independently.** For paths that lead to different files, none of which has
a sibling where its new content would go first: there is one report for each path in order, each
report and what stands at each path in the end depend on the state of this file in the beginning, the
files can be processed in any order with the same tree in the end, and no other place holds anything
else. Without writing nothing changes, and the reports are those of writing except for what is
written, as long as no file that can be read fails. -/
theorem processFiles_independent (settings : Settings) {tree : FileTree} {paths : List Text}
    (hDifferent : paths.Pairwise tree.Different) (hUnstaged : ∀ path ∈ paths, tree.Unstaged path) :
    (∀ write,
      (processFiles settings write tree paths).1 =
        paths.map (fun path => (tree.stateOf path).report settings write) ∧
      (∀ path ∈ paths, (processFiles settings write tree paths).2.nodeAt path =
        (tree.stateOf path).nodeAfter settings write) ∧
      (∀ others, others.Perm paths → processFiles settings write tree others =
        (others.map fun path => (tree.stateOf path).report settings write,
          (processFiles settings write tree paths).2)) ∧
      (∀ path, follow (processFiles settings write tree paths).2 path = follow tree path) ∧
      ∀ place, (∀ path ∈ paths, follow tree path ≠ .ok place) →
        (processFiles settings write tree paths).2.node? place = tree.node? place) ∧
    (processFiles settings false tree paths).2 = tree ∧
    ((∀ path ∈ paths, ∀ source, fileText tree path = .ok source →
        ((tree.stateOf path).report settings true).error = none) →
      (processFiles settings false tree paths).1 = (processFiles settings true tree paths).1.map
        fun report => { report with written := false }) := by
  refine ⟨fun write => ?_, processFiles_false settings tree paths, fun hWritten => ?_⟩
  · have hReplaces : ∀ change ∈ tree.changesFor settings write paths, tree.Replaces change :=
      fun change hChange => (FileTree.replaces_of_mem_changesFor hChange).1
    rw [processFiles_eq settings write hDifferent hUnstaged]
    refine ⟨rfl, fun path hPath => nodeAt_putAll settings write hDifferent hPath, ?permuted,
      (FileTree.sameWays_putAll hReplaces).follow_eq, ?others⟩
    case permuted =>
      intro others hPerm
      -- the files have the same states in whatever order they come
      have hOthers := hPerm.symm.pairwise hDifferent fun h => h.symm
      rw [processFiles_eq settings write hOthers fun path hPath =>
        hUnstaged path (hPerm.mem_iff.1 hPath)]
      have hChanges := FileTree.putAll_perm (hPerm.symm.filterMap fun path =>
        (tree.stateOf path).change? settings write) hReplaces
        (FileTree.pairwise_changesFor hDifferent)
      rw [FileTree.changesFor, FileTree.changesFor, hChanges]
    case others =>
      intro place hPlace
      refine FileTree.node?_putAll_of_ne hReplaces fun change hChange hEq => ?_
      obtain ⟨-, path, hPath, hFollow⟩ := FileTree.replaces_of_mem_changesFor hChange
      exact hPlace path hPath (hEq ▸ hFollow)
  · rw [processFiles_eq settings false hDifferent hUnstaged,
      processFiles_eq settings true hDifferent hUnstaged, List.map_map]
    refine List.map_congr_left fun path hPath => ?_
    exact (tree.stateOf path).report_false settings (hWritten path hPath)

end

/-- A file that changes between one that is not there, one that is no text, and one whose sibling the
system lets nobody write. -/
theorem processFiles_independent_between_failures :
    ∃ p : Program, p.text = "class A:\n  def __init__(self, a):\n    pass".toList ∧
      let tree : FileTree := ⟨[([['w']], .directory), ([['w'], ['a']], .file (.text p.text) 0o755),
          ([['w'], ['b']], .file (.binary [0xff]) 0o644),
          ([['w'], ['c']], .file (.text p.text) 0o644)],
        [['w']], [⟨.write, stagedPath ['c'], .permissionDenied⟩]⟩
      let paths := [['g'], ['a'], ['b'], ['c']]
      paths.Pairwise tree.Different ∧ (∀ path ∈ paths, tree.Unstaged path) ∧
      (processFiles .default true tree paths).2.nodeAt ['a'] = .ok (.file (.text
        "class A:\n  def __init__(self, a):\n    self.a = a\n    pass".toList) 0o755) ∧
      (processFiles .default true tree paths).1.map (fun report => report.error.isSome) =
        [true, false, true, true] ∧
      (processFiles .default true tree paths.reverse).2 =
        (processFiles .default true tree paths).2 := by
  let p : Program := ⟨["class A:".toList, "  def __init__(self, a):".toList, "    pass".toList],
    by decide +kernel⟩
  have hText : p.text = "class A:\n  def __init__(self, a):\n    pass".toList := by decide +kernel
  have hPlan : planDocument p.text .default =
      ⟨[⟨['A'], 2, .generated ["self.a = a".toList]⟩], [⟨34, "    ".toList, ["self.a = a".toList]⟩]⟩ := by
    rw [planDocument, locate, p.layout_text]
    decide +kernel
  refine ⟨p, hText, ?_⟩
  intro tree paths
  have hDifferent : paths.Pairwise tree.Different := by decide +kernel
  have hUnstaged : ∀ path ∈ paths, tree.Unstaged path := by decide +kernel
  have hState : tree.stateOf ['a'] = ⟨['a'], .ok [['w'], ['a']], .ok (.file (.text p.text) 0o755),
      .ok p.text, none⟩ := by decide +kernel
  obtain ⟨hAll, -, -⟩ := processFiles_independent .default hDifferent hUnstaged
  obtain ⟨hReports, hNodes, hOrders, -, -⟩ := hAll true
  refine ⟨hDifferent, hUnstaged, ?_, ?_, ?_⟩
  · rw [hNodes ['a'] (by decide), hState]
    simp only [FileState.nodeAfter, FileState.change?, FileState.newText?, hPlan]
    decide +kernel
  · rw [hReports]
    have hFirst : ((tree.stateOf ['a']).report .default true).error = none := by
      rw [hState]
      simp only [FileState.report, hPlan]
      decide +kernel
    have hLast : ((tree.stateOf ['c']).report .default true).error.isSome = true := by
      have hState' : tree.stateOf ['c'] = ⟨['c'], .ok [['w'], ['c']], .ok (.file (.text p.text) 0o644),
          .ok p.text, some ⟨.write, stagedPath ['c'], .permissionDenied⟩⟩ := by decide +kernel
      rw [hState']
      simp only [FileState.report, hPlan]
      decide +kernel
    have hMissing : ((tree.stateOf ['g']).report .default true).error.isSome = true := by
      decide +kernel
    have hBinary : ((tree.stateOf ['b']).report .default true).error.isSome = true := by
      decide +kernel
    simp [paths, hFirst, hLast, hMissing, hBinary]
  · rw [hOrders paths.reverse (List.reverse_perm paths)]

end FieldFill
