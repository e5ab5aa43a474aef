import FieldFill.Proofs.Files.Independent

/-!
# A refused replacement changes nothing

New content is written to a sibling, which is then renamed over the file. The sibling takes a slot in
which nothing stands, beside the slot of the file, whatever the path leads to before: a file, a
directory, or nothing. So the tree is what it was once the sibling is removed, and a replacement that
comes to its end has changed one place.

Main definitions:

* `FileTree.modeFor` — the permissions of a file that is put at a path.
* `FileTree.Replaced` — a path holds a new text, and nothing else is different.
* `FileTree.Staged` — a tree with a file in a slot that was empty.

Main results:

* `FileTree.slot_ne_stagedSlot` — the slot of the sibling is another one than that of the file.
* `replaceFile_of_ok`, `replaceFile_of_error` — what a replacement leaves behind.
* `sameWays_processFiles` — files without siblings have none when it is their turn.
* `replaceFile_atomic` — replacements, files and lines of files change nothing when they fail.
-/

namespace FieldFill

/-! ## Slots and paths -/

section

variable {tree : FileTree} {path : Text} {place slot : Place} {parts : List Text} {dots : Refusal}

/-- A path that names something in a directory has its slot there. -/
theorem slotFor_eq_ok {directory : Place}
    (hInit : tree.enterAll (tree.startOf path) parts.dropLast = .ok directory)
    (hDirectory : tree.node? directory = some .directory)
    (hDots : isDots (parts.getLast?.getD []) = false)
    (hShort : byteLength (parts.getLast?.getD []) ≤ greatestName) :
    slotFor tree path parts dots = .ok (directory ++ [parts.getLast?.getD []]) := by
  unfold slotFor
  rw [hInit]
  dsimp only
  rw [if_neg (not_not_intro hDirectory), hDots, if_neg Bool.false_ne_true,
    if_neg (Nat.not_lt.2 hShort)]

/-- Trees with the same directories have the same slots. -/
theorem SameDirectories.slotFor_of_ok {u : FileTree} (h : SameDirectories tree u)
    (hSlot : slotFor tree path parts dots = .ok place) : slotFor u path parts dots = .ok place := by
  obtain ⟨directory, hInit, hDirectory, hDots, hShort, rfl⟩ := FileTree.exists_of_slotFor hSlot
  have hDirectory' := (h.directory directory).2 hDirectory
  refine slotFor_eq_ok ?_ hDirectory' hDots hShort
  rw [h.startOf_eq]
  exact h.enterAll_of_ok hInit fun _ => by rw [hDirectory', Option.isSome_some]

end

namespace FileTree

variable {tree : FileTree} {path : Text} {place slot : Place} {dots dots' : Refusal}

/-- A path that does not end in a slash has a name at its end. -/
theorem partsToName_eq (hPath : path ≠ []) (hSlash : path.getLast? ≠ some '/') :
    partsToName path = pathParts path := by
  obtain ⟨front, c, rfl⟩ := (List.eq_nil_or_concat path).resolve_left hPath
  rw [List.concat_eq_append] at hSlash ⊢
  have hc : '/' ∉ [c] := by
    intro hMem
    rw [List.getLast?_concat, ← List.mem_singleton.1 hMem] at hSlash
    exact hSlash rfl
  obtain ⟨init, last, -, hParts⟩ := exists_pathParts_append front hc
  rw [partsToName, hParts, List.reverse_concat, List.dropWhile_cons_of_neg (by simp)]
  simp

/-- **The sibling of a file gets another slot than the file.** -/
theorem slot_ne_stagedSlot (hPath : path ≠ [])
    (hPlace : slotFor tree path (pathParts path) dots = .ok place)
    (hSlot : slotFor tree (stagedPath path) (pathParts (stagedPath path)) dots' = .ok slot) :
    slot ≠ place := by
  obtain ⟨init, last, directory, hParts, hInit, rfl⟩ := exists_stagedSlot hPath hSlot
  obtain ⟨directory', hInit', -, -, -, rfl⟩ := exists_of_slotFor hPlace
  rw [hParts, List.dropLast_concat, hInit] at hInit'
  obtain rfl := Except.ok.inj hInit'
  rw [hParts, List.getLast?_concat, Option.getD_some]
  exact staged_name_ne directory last

/-! ## The sibling -/

/-- A tree with a file in a slot that was empty. -/
structure Staged (tree : FileTree) (slot : Place) (content : Content) (mode : Nat)
    (u : FileTree) : Prop where
  sameDirectories : SameDirectories tree u
  obstacles : u.obstacles = tree.obstacles
  node?_eq : ∀ place,
    u.node? place = if place = slot then some (.file content mode) else tree.node? place
  remove_eq : u.remove slot = tree

theorem staged_put (hSlot : slot ≠ []) (hNone : tree.node? slot = none) (content : Content)
    (mode : Nat) : tree.Staged slot content mode (tree.put slot (.file content mode)) where
  sameDirectories := sameDirectories_put hSlot (by simp [hNone]) content mode
  obstacles := tree.obstacles_put _
  node?_eq := tree.node?_put hSlot _
  remove_eq := by rw [remove_put, remove_of_node?_eq_none _ hSlot hNone]

namespace Staged

variable {u : FileTree} {content : Content} {mode : Nat}

/-- The file in the slot gets other permissions. -/
theorem put (h : tree.Staged slot content mode u) (mode' : Nat) :
    tree.Staged slot content mode' (u.put slot (.file content mode')) := by
  have hNode : u.node? slot = some (.file content mode) := by rw [h.node?_eq, if_pos rfl]
  refine ⟨h.sameDirectories.trans (sameWays_put hNode content mode').toSameDirectories,
    (u.obstacles_put _).trans h.obstacles, fun place => ?_, by rw [remove_put, h.remove_eq]⟩
  rw [u.node?_put (ne_nil_of_isFile hNode), h.node?_eq]
  split <;> rfl

/-- Taking over permissions is refused, or the file in the slot has them then. -/
theorem takeMode_cases (h : tree.Staged slot content mode u) (staged : Text) (mode? : Option Nat) :
    (∃ refusal, takeMode u staged slot mode? = .error refusal) ∨
      ∃ v, takeMode u staged slot mode? = .ok v ∧ tree.Staged slot content (mode?.getD mode) v := by
  cases mode? with
  | none => exact .inr ⟨u, rfl, h⟩
  | some mode' =>
    have hNode : u.node? slot = some (.file content mode) := by rw [h.node?_eq, if_pos rfl]
    unfold takeMode setMode
    dsimp only
    rw [hNode]
    cases u.obstacle? .setPermissions staged with
    | some refusal => exact .inl ⟨refusal, rfl⟩
    | none => exact .inr ⟨_, rfl, h.put mode'⟩

/-- A file that is renamed to a path goes from its slot to the slot of the path. -/
theorem exists_of_rename (h : tree.Staged slot content mode u) {v : FileTree}
    (hRename : u.rename slot path = .ok v) :
    ∃ place, path ≠ [] ∧ refuse? path = none ∧
      slotFor tree path (pathParts path) .busy = .ok place ∧
      tree.node? place ≠ some .directory ∧ v = (u.put place (.file content mode)).remove slot := by
  have hNode : u.node? slot = some (.file content mode) := by rw [h.node?_eq, if_pos rfl]
  unfold rename at hRename
  split at hRename
  · cases hRename
  · rename_i hNone
    have hRefuse := (Option.or_eq_none_iff.1 hNone).2
    split at hRename
    · cases hRename
    · rename_i place hPlace
      rw [hNode] at hRename
      dsimp only at hRename
      split at hRename
      · cases hRename
      · rename_i hSlash
        split at hRename
        · cases hRename
        · rename_i hDirectory
          have hPath : path ≠ [] := by
            rintro rfl
            simp [refuse?] at hRefuse
          rw [partsToName_eq hPath hSlash] at hPlace
          refine ⟨place, hPath, hRefuse, h.sameDirectories.symm.slotFor_of_ok hPlace, ?_,
            (Except.ok.inj hRename).symm⟩
          exact fun hOld => hDirectory ((h.sameDirectories.directory place).2 hOld)

end Staged

/-! ## What a replacement leaves behind -/

/-- The permissions of a file that is put at a path: those of the file that is there, if one is. -/
def modeFor (tree : FileTree) (path : Text) : Nat :=
  match tree.nodeAt path with
  | .ok (.file _ mode) => mode
  | _ => newFileMode

/-- A path holds a new text, with the permissions it had, and there is no other difference between two
trees. -/
structure Replaced (t : FileTree) (path text : Text) (u : FileTree) : Prop where
  nodeAt_eq : u.nodeAt path = .ok (.file (.text text) (t.modeFor path))
  unstaged : u.Unstaged path
  elsewhere : ∀ place, follow u path ≠ .ok place → u.node? place = t.node? place
  workingDirectory : u.workingDirectory = t.workingDirectory
  obstacles : u.obstacles = t.obstacles

/-- The permissions that are asked for before a replacement are those of the file that is there. -/
theorem getD_of_mode? {mode? : Option Nat} (h : tree.mode? path = .ok mode?)
    (hDirectory : tree.nodeAt path ≠ .ok .directory) :
    mode?.getD newFileMode = tree.modeFor path := by
  unfold FileTree.mode? at h
  unfold modeFor
  split at h
  · cases h
  · rename_i hNode
    obtain rfl := Except.ok.inj h
    rw [hNode]
    rfl
  · rename_i hNode
    exact absurd hNode hDirectory
  · rename_i hNode
    obtain rfl := Except.ok.inj h
    rw [hNode]
    rfl
  · cases h

/-- **A sibling that is renamed to a path replaces what stands there.** -/
theorem Staged.replaced {u v : FileTree} {text : Text} {mode? : Option Nat}
    (hSlot : tree.writeSlot (stagedPath path) = .ok slot) (hMode : tree.mode? path = .ok mode?)
    (h : tree.Staged slot (.text text) (mode?.getD newFileMode) u)
    (hNone : tree.node? slot = none) (hRename : u.rename slot path = .ok v) :
    tree.Replaced path text v := by
  obtain ⟨place, hPath, hRefuse, hPlace, hDirectory, rfl⟩ := h.exists_of_rename hRename
  obtain ⟨hRefuse', hFor, -, hSlotNe⟩ := exists_of_writeSlot hSlot
  obtain ⟨directory, -, -, -, -, rfl⟩ := exists_of_slotFor hPlace
  generalize hEq : directory ++ [(pathParts path).getLast?.getD []] = place at *
  have hPlaceNe : place ≠ [] := by simp [← hEq]
  have hne := slot_ne_stagedSlot hPath hPlace hFor
  have hNodes : ∀ other, ((u.put place (.file (.text text) (mode?.getD newFileMode))).remove
      slot).node? other = if other = place then
        some (.file (.text text) (mode?.getD newFileMode)) else tree.node? other := by
    intro other
    rw [node?_remove _ hSlotNe, node?_put _ hPlaceNe, h.node?_eq]
    by_cases hOther : other = slot
    · rw [if_pos hOther, if_neg (hOther ▸ hne), hOther, hNone]
    · rw [if_neg hOther, if_neg hOther]
  -- no directory comes or goes, so both paths keep their slots
  have hNew : u.node? place ≠ some .directory := fun hOld =>
    hDirectory ((h.sameDirectories.directory place).1 hOld)
  have hSource : (u.put place (.file (.text text) (mode?.getD newFileMode))).node? slot ≠
      some .directory := by
    rw [node?_put _ hPlaceNe, if_neg hne, h.node?_eq, if_pos rfl]
    simp
  have hSame := (h.sameDirectories.trans (sameDirectories_put hPlaceNe hNew (.text text)
    (mode?.getD newFileMode))).trans (sameDirectories_remove hSlotNe hSource)
  obtain ⟨hBefore, -⟩ := nodeAt_of_slotFor hRefuse hPlace
  obtain ⟨hAfter, hFollow⟩ := nodeAt_of_slotFor hRefuse (hSame.slotFor_of_ok hPlace)
  obtain ⟨hStaged, -⟩ := nodeAt_of_slotFor hRefuse' (hSame.slotFor_of_ok hFor)
  rw [hNodes, if_pos rfl] at hAfter hFollow
  rw [hNodes, if_neg hne, hNone] at hStaged
  refine ⟨?_, ?_, fun other hOther => ?_, ?_, ?_⟩
  · rw [hAfter, getD_of_mode? hMode]
    · rfl
    · rw [hBefore]
      cases hOld : tree.node? place with
      | none => simp
      | some node =>
        intro hEq
        exact hDirectory (by rw [hOld, Except.ok.inj hEq])
  · intro node hNode
    rw [hStaged] at hNode
    cases hNode
  · rw [hNodes, if_neg]
    rintro rfl
    exact hOther (hFollow rfl)
  · simp [h.sameDirectories.workingDirectory]
  · simp [h.obstacles]

/-- **A replacement is refused without a trace, or it has changed one place.** -/
theorem replaceFile_cases (hUnstaged : tree.Unstaged path) (text : Text) :
    (∃ fault, replaceFile tree path text = (.error fault, tree)) ∨
      ∃ u, replaceFile tree path text = (.ok (), u) ∧ tree.Replaced path text u := by
  unfold replaceFile
  dsimp only
  cases hMode : tree.mode? path with
  | error refusal => exact .inl ⟨_, rfl⟩
  | ok mode? =>
    dsimp only
    rw [writeText_eq]
    cases hSlot : tree.writeSlot (stagedPath path) with
    | error refusal => exact .inl ⟨_, rfl⟩
    | ok slot =>
      obtain ⟨-, -, -, hSlotNe⟩ := exists_of_writeSlot hSlot
      have hNone := node?_of_writeSlot hSlot hUnstaged
      have hNewMode : tree.modeAt slot = newFileMode := by rw [modeAt, hNone]
      have hWritten := staged_put hSlotNe hNone (.text text) newFileMode
      dsimp only [Except.map]
      rw [hNewMode]
      rcases hWritten.takeMode_cases (stagedPath path) mode? with
        ⟨refusal, hTake⟩ | ⟨ready, hTake, hReady⟩
      · refine .inl ⟨⟨.setPermissions, stagedPath path, refusal⟩, ?_⟩
        rw [hTake]
        dsimp only
        rw [hWritten.remove_eq]
      · rw [hTake]
        dsimp only
        cases hRename : ready.rename slot path with
        | error refusal =>
          dsimp only
          rw [hReady.remove_eq]
          exact .inl ⟨_, rfl⟩
        | ok u => exact .inr ⟨u, rfl, hReady.replaced hSlot hMode hNone hRename⟩

end FileTree

section

variable {tree : FileTree} {path : Text}

theorem replaceFile_of_ok (hUnstaged : tree.Unstaged path) {text : Text}
    (h : (replaceFile tree path text).1 = .ok ()) :
    tree.Replaced path text (replaceFile tree path text).2 := by
  rcases FileTree.replaceFile_cases hUnstaged text with ⟨fault, hFault⟩ | ⟨u, hOk, hReplaced⟩
  · rw [hFault] at h
    cases h
  · rwa [hOk]

theorem replaceFile_of_error (hUnstaged : tree.Unstaged path) {text : Text} {fault : FileFault}
    (h : (replaceFile tree path text).1 = .error fault) : (replaceFile tree path text).2 = tree := by
  rcases FileTree.replaceFile_cases hUnstaged text with ⟨other, hFault⟩ | ⟨u, hOk, -⟩
  · rw [hFault]
  · rw [hOk] at h
    cases h

/-! ## Files and lines of files -/

variable {settings : Settings} {write : Bool} {fault : RunFault}

/-- Only the replacement of a file can fail once there is a plan for it. -/
theorem finishFile_of_error (hUnstaged : tree.Unstaged path) {source : Text} {plan : Plan}
    (h : (finishFile tree path source plan write).1 = .error fault) :
    (finishFile tree path source plan write).2 = tree := by
  unfold finishFile at h ⊢
  dsimp only at h ⊢
  split
  · rename_i hWrite
    rw [if_pos hWrite] at h
    rcases FileTree.replaceFile_cases hUnstaged ((plan.apply source).getD source) with
      ⟨other, hFault⟩ | ⟨u, hOk, -⟩
    · rw [hFault]
    · rw [hOk] at h
      cases h
  · rfl

theorem processFile_of_error (hUnstaged : tree.Unstaged path)
    (h : (processFile settings write tree path).1 = .error fault) :
    (processFile settings write tree path).2 = tree := by
  unfold processFile at h ⊢
  cases hText : fileText tree path with
  | error own => rfl
  | ok source =>
    rw [hText] at h
    exact finishFile_of_error hUnstaged h

theorem processLine_of_error (hUnstaged : tree.Unstaged path) {line : Nat}
    (h : (processLine settings write tree path line).1 = .error fault) :
    (processLine settings write tree path line).2 = tree := by
  unfold processLine at h ⊢
  cases hText : fileText tree path with
  | error own => rfl
  | ok source =>
    rw [hText] at h
    dsimp only at h ⊢
    cases hPlan : planAtLine source line settings with
    | error own => rfl
    | ok plan =>
      rw [hPlan] at h
      exact finishFile_of_error hUnstaged h

/-- A file that is processed is reported without an error. -/
theorem error_of_processFile {report : FileReport}
    (h : (processFile settings write tree path).1 = .ok report) : report.error = none := by
  unfold processFile finishFile at h
  cases hText : fileText tree path with
  | error own =>
    rw [hText] at h
    cases h
  | ok source =>
    rw [hText] at h
    dsimp only at h
    split at h
    · split at h
      · obtain rfl := Except.ok.inj h
        rfl
      · cases h
    · obtain rfl := Except.ok.inj h
      rfl

/-- **Processing files without siblings redirects no path**, whatever fails: a file is replaced by a
file. -/
theorem sameWays_processFiles (settings : Settings) (write : Bool) {paths : List Text}
    (h : ∀ path ∈ paths, tree.Unstaged path) :
    SameWays tree (processFiles settings write tree paths).2 := by
  induction paths generalizing tree with
  | nil => exact SameWays.refl tree
  | cons path more ih =>
    obtain ⟨hPath, hMore⟩ := List.forall_mem_cons.1 h
    have hNext := sameWays_after_change tree path settings write
    rw [← (processFile_eq settings write hPath).2] at hNext
    rw [processFiles]
    exact hNext.trans (ih fun other hOther => (hMore other hOther).congr hNext)

/-- The last of some files is processed in the tree that the others leave behind. -/
theorem processFiles_concat (settings : Settings) (write : Bool) (tree : FileTree)
    (paths : List Text) (last : Text) :
    processFiles settings write tree (paths ++ [last]) =
      ((processFiles settings write tree paths).1 ++
          [reportOf last (processFile settings write (processFiles settings write tree paths).2 last).1],
        (processFile settings write (processFiles settings write tree paths).2 last).2) := by
  induction paths generalizing tree with
  | nil => rfl
  | cons path more ih =>
    rw [List.cons_append, processFiles]
    dsimp only
    rw [ih]
    rfl

/-- A file that is reported with an error leaves the tree as the files before it left it. -/
theorem processFiles_concat_of_error {paths : List Text} {last : Text}
    (h : ∀ path ∈ paths ++ [last], tree.Unstaged path) {report : FileReport}
    (hReport : (processFiles settings write tree (paths ++ [last])).1.getLast? = some report)
    (hError : report.error.isSome = true) :
    (processFiles settings write tree (paths ++ [last])).2 =
      (processFiles settings write tree paths).2 := by
  obtain ⟨hPaths, hLast⟩ := List.forall_mem_append.1 h
  have hUnstaged := (hLast last (List.mem_singleton_self last)).congr
    (sameWays_processFiles settings write hPaths)
  rw [processFiles_concat] at hReport ⊢
  rw [List.getLast?_concat] at hReport
  obtain rfl := Option.some.inj hReport
  cases hResult : (processFile settings write (processFiles settings write tree paths).2 last).1 with
  | error fault => exact processFile_of_error hUnstaged hResult
  | ok report =>
    have hNone := error_of_processFile hResult
    rw [hResult, reportOf, hNone] at hError
    cases hError

end

/-- **A failed write leaves the files as they were.** For a path at whose sibling nothing stands: a
replacement that succeeds has put the text there, with the permissions of the file that was there,
nothing stands at the sibling, and no other place has changed. One that is refused, at whichever step,
has changed nothing. So a line of the file that is processed with an error changes nothing, and a file
that is processed after some others and reported with an error leaves the tree as they left it. -/
theorem replaceFile_atomic {tree : FileTree} {path : Text} (hUnstaged : tree.Unstaged path)
    (text : Text) (settings : Settings) (write : Bool) (line : Nat) :
    ((replaceFile tree path text).1 = .ok () →
      tree.Replaced path text (replaceFile tree path text).2) ∧
    (∀ fault, (replaceFile tree path text).1 = .error fault →
      (replaceFile tree path text).2 = tree) ∧
    (∀ fault, (processLine settings write tree path line).1 = .error fault →
      (processLine settings write tree path line).2 = tree) ∧
    ∀ others : List Text, (∀ other ∈ others, tree.Unstaged other) → ∀ report,
      (processFiles settings write tree (others ++ [path])).1.getLast? = some report →
        report.error.isSome = true →
          (processFiles settings write tree (others ++ [path])).2 =
            (processFiles settings write tree others).2 := by
  refine ⟨replaceFile_of_ok hUnstaged, fun _ => replaceFile_of_error hUnstaged,
    fun _ => processLine_of_error hUnstaged, fun others hOthers report hReport hError => ?_⟩
  refine processFiles_concat_of_error (fun other hOther => ?_) hReport hError
  rcases List.mem_append.1 hOther with hMem | hMem
  · exact hOthers other hMem
  · rwa [List.mem_singleton.1 hMem]

/-- A file that is replaced, a directory that is not, and a line of a file for whose sibling nobody may
set permissions. -/
theorem replaceFile_atomic_refused :
    let source := "def __init__(self, a):\n  pass\n".toList
    let tree : FileTree := ⟨[([['w']], .directory), ([['w'], ['a']], .file (.text ['1']) 0o755),
      ([['w'], ['d']], .directory), ([['w'], ['d'], ['e']], .file (.text ['2']) 0o644),
      ([['w'], ['c']], .file (.text source) 0o600)], [['w']],
      [⟨.setPermissions, stagedPath ['c'], .permissionDenied⟩]⟩
    (∀ path ∈ [['a'], ['d'], ['c']], tree.Unstaged path) ∧
      (replaceFile tree ['a'] ['x']).1 = .ok () ∧
      (replaceFile tree ['a'] ['x']).2.nodeAt ['a'] = .ok (.file (.text ['x']) 0o755) ∧
      (replaceFile tree ['d'] ['x']).1 = .error ⟨.replace, ['d'], .isDirectory⟩ ∧
      (replaceFile tree ['d'] ['x']).2 = tree ∧
      (processLine .default true tree ['c'] 1).1 =
        .error (.file ⟨.setPermissions, stagedPath ['c'], .permissionDenied⟩) ∧
      (processLine .default true tree ['c'] 1).2 = tree := by
  intro source tree
  have hUnstaged : ∀ path ∈ [['a'], ['d'], ['c']], tree.Unstaged path := by decide +kernel
  have hFirst : (replaceFile tree ['a'] ['x']).1 = .ok () := by decide +kernel
  have hSecond : (replaceFile tree ['d'] ['x']).1 = .error ⟨.replace, ['d'], .isDirectory⟩ := by
    decide +kernel
  have hThird : (processLine .default true tree ['c'] 1).1 =
      .error (.file ⟨.setPermissions, stagedPath ['c'], .permissionDenied⟩) := by decide +kernel
  have hAtomic := fun path hPath =>
    @replaceFile_atomic tree path (hUnstaged path hPath) ['x'] .default true 1
  refine ⟨hUnstaged, hFirst, ?_, hSecond, ?_, hThird, ?_⟩
  · exact ((hAtomic ['a'] (by decide)).1 hFirst).nodeAt_eq
  · exact (hAtomic ['d'] (by decide)).2.1 _ hSecond
  · exact (hAtomic ['c'] (by decide)).2.2.1 _ hThird

end FieldFill
