import FieldFill.Files.Replace
import FieldFill.Proofs.Files.Ways

/-!
# Replacing a file

What the replacement of a file comes to, in any tree. The sibling that receives the new content first
stands beside the file, so it is another place, and it is gone when the replacement is over, whether
it was refused or not. What remains is the new content in the place of the old one, with the
permissions it had.

Main definitions:

* `FileTree.LeadsToFile` — a path leads to a file.
* `FileTree.stagedSlot` — where the sibling goes, if the system lets it be written.
* `FileTree.replaceFault?` — why the replacement of a file is refused, when it is.

Main results:

* `FileTree.nodeAt_of_slotFor` — a path leads to the slot that it has, if something stands there.
* `FileTree.LeadsToFile.stagedSlot_ne` — the sibling goes to another place.
* `FileTree.LeadsToFile.replaceFile_eq` — the result of a replacement, with the tree it leaves behind.
-/

namespace FieldFill

/-! ## Parts of a path -/

theorem pathParts_ne_nil (path : Text) : pathParts path ≠ [] := by
  cases path with
  | nil => simp [pathParts]
  | cons c path =>
    rw [pathParts]
    split
    · simp
    · split <;> simp

/-- A slash at the end of a path leaves an empty part behind it. -/
theorem exists_pathParts_of_slash {path : Text} (h : path.getLast? = some '/') :
    ∃ part init, pathParts path = part :: (init ++ [[]]) := by
  induction path with
  | nil => cases h
  | cons c path ih =>
    cases path with
    | nil =>
      obtain rfl : c = '/' := Option.some.inj h
      exact ⟨[], [], rfl⟩
    | cons d path =>
      rw [List.getLast?_cons_cons] at h
      obtain ⟨part, init, hParts⟩ := ih h
      rw [pathParts, hParts]
      split
      · exact ⟨[], part :: init, rfl⟩
      · exact ⟨c :: part, init, rfl⟩

theorem pathParts_of_not_mem {suffix : Text} (h : '/' ∉ suffix) : pathParts suffix = [suffix] := by
  induction suffix with
  | nil => rfl
  | cons c suffix ih =>
    have hc : c ≠ '/' := fun hEq => h (hEq ▸ List.mem_cons_self ..)
    rw [pathParts, if_neg hc, ih fun hMem => h (List.mem_cons_of_mem _ hMem)]

/-- What is appended to a path makes its last part longer. -/
theorem exists_pathParts_append (path : Text) {suffix : Text} (hSuffix : '/' ∉ suffix) :
    ∃ init last, pathParts path = init ++ [last] ∧
      pathParts (path ++ suffix) = init ++ [last ++ suffix] := by
  induction path with
  | nil => exact ⟨[], [], rfl, pathParts_of_not_mem hSuffix⟩
  | cons c path ih =>
    obtain ⟨init, last, hParts, hAppend⟩ := ih
    rw [List.cons_append, pathParts, pathParts, hParts, hAppend]
    -- a slash begins a part, and any other character belongs to the one that follows
    by_cases hc : c = '/'
    · rw [if_pos hc, if_pos hc]
      exact ⟨[] :: init, last, rfl, rfl⟩
    · rw [if_neg hc, if_neg hc]
      cases init with
      | nil => exact ⟨[], c :: last, rfl, rfl⟩
      | cons part init => exact ⟨(c :: part) :: init, last, rfl, rfl⟩

namespace FileTree

variable {tree : FileTree} {path : Text} {place : Place} {content : Content} {mode : Nat}

/-! ## Paths to files -/

/-- A path leads to a file. -/
structure LeadsToFile (tree : FileTree) (path : Text) (place : Place) (content : Content)
    (mode : Nat) : Prop where
  follow : follow tree path = .ok place
  node : tree.node? place = some (.file content mode)

namespace LeadsToFile

theorem nodeAt_eq (h : tree.LeadsToFile path place content mode) :
    tree.nodeAt path = .ok (.file content mode) := by
  unfold nodeAt
  simp only [h.follow, h.node]

theorem refuse?_eq (h : tree.LeadsToFile path place content mode) : refuse? path = none := by
  have hFollow := h.follow
  unfold FieldFill.follow at hFollow
  split at hFollow
  · cases hFollow
  · assumption

/-- The last part of a path to a file is a name in a directory, or it goes up. -/
theorem exists_last (h : tree.LeadsToFile path place content mode) :
    ∃ init last directory, pathParts path = init ++ [last] ∧
      tree.enterAll (tree.startOf path) init = .ok directory ∧
      tree.node? directory = some .directory ∧
      (last = ['.', '.'] ∧ place = directory.dropLast ∨
        isDots last = false ∧ byteLength last ≤ greatestName ∧ place = directory ++ [last]) := by
  obtain ⟨init, last, hParts⟩ : ∃ init last, pathParts path = init ++ [last] :=
    ⟨_, _, (List.dropLast_concat_getLast (pathParts_ne_nil path)).symm⟩
  have hFollow := h.follow
  unfold FieldFill.follow at hFollow
  rw [h.refuse?_eq, hParts] at hFollow
  dsimp only at hFollow
  rw [enterAll_concat] at hFollow
  cases hInit : tree.enterAll (tree.startOf path) init with
  | error refusal =>
    rw [hInit] at hFollow
    cases hFollow
  | ok directory =>
    rw [hInit] at hFollow
    have hEnter : tree.enter directory last = .ok place := hFollow
    have hDirectory := node?_of_enter hEnter
    refine ⟨init, last, directory, hParts, hInit, hDirectory, ?_⟩
    unfold enter at hEnter
    rw [if_neg (not_not_intro hDirectory)] at hEnter
    split at hEnter
    · -- the directory itself is no file
      obtain rfl := Except.ok.inj hEnter
      rw [h.node] at hDirectory
      cases hDirectory
    · rename_i hStays
      split at hEnter
      · rename_i hUp
        exact .inl ⟨hUp, (Except.ok.inj hEnter).symm⟩
      · rename_i hUp
        unfold child at hEnter
        split at hEnter
        · cases hEnter
        · rename_i hShort
          split at hEnter
          · refine .inr ⟨?_, Nat.le_of_not_lt hShort, (Except.ok.inj hEnter).symm⟩
            rw [Bool.not_eq_true] at hStays
            rw [isDots, hStays, Bool.false_or]
            exact decide_eq_false hUp
          · cases hEnter

/-- A change that leaves the directories and the file itself leaves the way to it. -/
theorem congr {u : FileTree} (h : tree.LeadsToFile path place content mode)
    (hSame : SameDirectories tree u) (hNode : u.node? place = tree.node? place) :
    u.LeadsToFile path place content mode := by
  have hFile : u.node? place = some (.file content mode) := hNode.trans h.node
  exact ⟨hSame.follow_of_ok h.follow fun _ => by rw [hFile, Option.isSome_some], hFile⟩

end LeadsToFile

/-! ## Slots -/

theorem exists_of_slotFor {parts : List Text} {dots : Refusal}
    (h : slotFor tree path parts dots = .ok place) :
    ∃ directory, tree.enterAll (tree.startOf path) parts.dropLast = .ok directory ∧
      tree.node? directory = some .directory ∧ isDots (parts.getLast?.getD []) = false ∧
      byteLength (parts.getLast?.getD []) ≤ greatestName ∧
      place = directory ++ [parts.getLast?.getD []] := by
  unfold slotFor at h
  split at h
  · cases h
  · rename_i directory hInit
    dsimp only at h
    split at h
    · cases h
    · rename_i hDirectory
      split at h
      · cases h
      · rename_i hDots
        split at h
        · cases h
        · rename_i hShort
          exact ⟨directory, hInit, Decidable.not_not.1 hDirectory, Bool.not_eq_true _ ▸ hDots,
            Nat.le_of_not_lt hShort, (Except.ok.inj h).symm⟩

/-- **A path leads to its slot, if something stands there.** -/
theorem nodeAt_of_slotFor {dots : Refusal} (hRefuse : refuse? path = none)
    (hSlot : slotFor tree path (pathParts path) dots = .ok place) :
    tree.nodeAt path = (tree.node? place).elim (.error .notFound) .ok ∧
      ((tree.node? place).isSome = true → follow tree path = .ok place) := by
  obtain ⟨directory, hInit, hDirectory, hDots, hShort, rfl⟩ := exists_of_slotFor hSlot
  have hParts := List.dropLast_concat_getLast (pathParts_ne_nil path)
  rw [List.getLast?_eq_some_getLast (pathParts_ne_nil path), Option.getD_some] at hDots hShort ⊢
  generalize (pathParts path).getLast (pathParts_ne_nil path) = name at hParts hDots hShort
  simp only [isDots, Bool.or_eq_false_iff, decide_eq_false_iff_not] at hDots
  obtain ⟨⟨hNonempty, hDot⟩, hUp⟩ := hDots
  -- the last part is a name, so it is looked up in the directory of the slot
  have hFollow : follow tree path = tree.child directory name := by
    unfold follow
    rw [hRefuse]
    dsimp only
    rw [← hParts, enterAll_concat, hInit]
    show tree.enter directory name = _
    rw [enter, if_neg (not_not_intro hDirectory), if_neg (by simp [hNonempty, hDot]), if_neg hUp]
  unfold nodeAt
  rw [hFollow, child, if_neg (Nat.not_lt.2 hShort)]
  cases hNode : tree.node? (directory ++ [name]) with
  | none => exact ⟨rfl, fun hSome => absurd hSome Bool.false_ne_true⟩
  | some node => simp [hNode]

/-- The place to which a path lets a text be written. -/
def writeSlot (tree : FileTree) (path : Text) : Except Refusal Place :=
  match (tree.obstacle? .write path).or (refuse? path) with
  | some refusal => .error refusal
  | none =>
    match slotFor tree path (pathParts path) .isDirectory with
    | .error refusal => .error refusal
    | .ok place =>
      if tree.node? place = some .directory then .error .isDirectory else .ok place

/-- The place to which a path lets a file be renamed. -/
def renameSlot (tree : FileTree) (path : Text) : Except Refusal Place :=
  match (tree.obstacle? .replace path).or (refuse? path) with
  | some refusal => .error refusal
  | none => slotFor tree path (partsToName path) .busy

/-- The permissions of a file that is written to a place. -/
def modeAt (tree : FileTree) (place : Place) : Nat :=
  match tree.node? place with
  | some (.file _ mode) => mode
  | _ => newFileMode

theorem writeText_eq (tree : FileTree) (path text : Text) :
    tree.writeText path text = (tree.writeSlot path).map fun place =>
      (place, tree.put place (.file (.text text) (tree.modeAt place))) := by
  unfold writeText writeSlot
  cases (tree.obstacle? .write path).or (refuse? path) with
  | some refusal => rfl
  | none =>
    cases slotFor tree path (pathParts path) .isDirectory with
    | error refusal => rfl
    | ok place =>
      dsimp only
      cases hNode : tree.node? place with
      | none => simp [hNode, modeAt, Except.map]
      | some node =>
        cases node with
        | file content mode => simp [hNode, modeAt, Except.map]
        | directory => rfl

theorem exists_of_writeSlot (h : tree.writeSlot path = .ok place) :
    refuse? path = none ∧ slotFor tree path (pathParts path) .isDirectory = .ok place ∧
      tree.node? place ≠ some .directory ∧ place ≠ [] := by
  unfold writeSlot at h
  split at h
  · cases h
  · rename_i hNone
    split at h
    · cases h
    · rename_i slot hSlot
      split at h
      · cases h
      · rename_i hDirectory
        obtain rfl := Except.ok.inj h
        obtain ⟨directory, -, -, -, -, rfl⟩ := exists_of_slotFor hSlot
        exact ⟨(Option.or_eq_none_iff.1 hNone).2, hSlot, hDirectory, by simp⟩

/-- A slot in which a path lets a text be written is empty when the path leads nowhere. -/
theorem node?_of_writeSlot {slot : Place} (hSlot : tree.writeSlot path = .ok slot)
    (hNone : ∀ node, tree.nodeAt path ≠ .ok node) : tree.node? slot = none := by
  obtain ⟨hRefuse, hFor, -, -⟩ := exists_of_writeSlot hSlot
  obtain ⟨hNode, -⟩ := nodeAt_of_slotFor hRefuse hFor
  cases hHolds : tree.node? slot with
  | none => rfl
  | some node =>
    rw [hHolds] at hNode
    exact absurd hNode (hNone node)

/-- **The sibling of a file goes into its directory**, with a longer name. -/
theorem exists_stagedSlot {slot : Place} {dots : Refusal} (hPath : path ≠ [])
    (hSlot : slotFor tree (stagedPath path) (pathParts (stagedPath path)) dots = .ok slot) :
    ∃ init last directory, pathParts path = init ++ [last] ∧
      tree.enterAll (tree.startOf path) init = .ok directory ∧
      slot = directory ++ [last ++ ".init-assign.tmp".toList] := by
  have hSlash : '/' ∉ ".init-assign.tmp".toList := by decide
  -- the two paths differ in their last parts only
  obtain ⟨init, last, hParts, hStaged⟩ := exists_pathParts_append path hSlash
  obtain ⟨directory, hInit, -, -, -, rfl⟩ := exists_of_slotFor hSlot
  have hStart : tree.startOf (stagedPath path) = tree.startOf path := by
    unfold startOf stagedPath
    rw [List.head?_append, Option.or_of_isSome (by simpa using hPath)]
  rw [hStart, stagedPath, hStaged, List.dropLast_concat] at hInit
  refine ⟨init, last, directory, hParts, hInit, ?_⟩
  rw [stagedPath, hStaged, List.getLast?_concat, Option.getD_some]

theorem staged_name_ne (directory : Place) (last : Text) :
    directory ++ [last ++ ".init-assign.tmp".toList] ≠ directory ++ [last] := by
  intro hEq
  have hLength := congrArg List.length (List.cons.inj (List.append_cancel_left hEq)).1
  rw [List.length_append] at hLength
  have hSuffix : ".init-assign.tmp".toList.length = 16 := rfl
  omega

namespace LeadsToFile

/-- **The sibling of a file goes to another place.** -/
theorem stagedSlot_ne (h : tree.LeadsToFile path place content mode) {slot : Place}
    (hSlot : tree.writeSlot (stagedPath path) = .ok slot) : slot ≠ place := by
  obtain ⟨init, last, directory, hParts, hInit, -, hLast⟩ := h.exists_last
  have hPath : path ≠ [] := by
    rintro rfl
    have hRefuse := h.refuse?_eq
    simp [refuse?] at hRefuse
  obtain ⟨-, hFor, -, -⟩ := exists_of_writeSlot hSlot
  obtain ⟨init', last', directory', hParts', hInit', rfl⟩ := exists_stagedSlot hPath hFor
  obtain ⟨rfl, hEq⟩ := List.append_inj' (hParts'.symm.trans hParts) rfl
  obtain rfl := (List.cons.inj hEq).1
  rw [hInit] at hInit'
  obtain rfl := Except.ok.inj hInit'
  rcases hLast with ⟨-, rfl⟩ | ⟨-, -, rfl⟩
  · -- the place of a directory further up has a shorter way
    intro hEq
    have hLength := congrArg List.length hEq
    rw [List.length_append, List.length_dropLast, List.length_singleton] at hLength
    omega
  · exact staged_name_ne directory last'

/-- A file can be put in place of a file, unless the path to it goes up at its end. -/
theorem slotFor_eq (h : tree.LeadsToFile path place content mode) :
    slotFor tree path (partsToName path) .busy =
      if (pathParts path).getLast? = some ['.', '.'] then .error .busy else .ok place := by
  obtain ⟨init, last, directory, hParts, hInit, hDirectory, hLast⟩ := h.exists_last
  have hNonempty : last.isEmpty = false := by
    rcases hLast with ⟨rfl, -⟩ | ⟨hDots, -⟩
    · rfl
    · simp only [isDots, Bool.or_eq_false_iff] at hDots
      exact hDots.1.1
  -- there is no slash at the end to be left out
  have hName : partsToName path = init ++ [last] := by
    rw [partsToName, hParts, List.reverse_concat, List.dropWhile_cons, hNonempty]
    simp
  unfold slotFor
  rw [hName, hParts, List.dropLast_concat, hInit, List.getLast?_concat]
  dsimp only
  rw [if_neg (not_not_intro hDirectory), Option.getD_some]
  rcases hLast with ⟨rfl, -⟩ | ⟨hDots, hShort, rfl⟩
  · rfl
  · have hUp : last ≠ ['.', '.'] := by
      rintro rfl
      cases hDots
    rw [if_neg (by simp [hDots]), if_neg (Nat.not_lt.2 hShort),
      if_neg fun hEq => hUp (Option.some.inj hEq)]

theorem getLast?_ne (h : tree.LeadsToFile path place content mode) :
    path.getLast? ≠ some '/' := by
  intro hSlash
  -- behind a slash at the end is an empty part, which is no name
  obtain ⟨part, init', hParts'⟩ := exists_pathParts_of_slash hSlash
  obtain ⟨init, last, directory, hParts, -, -, hLast⟩ := h.exists_last
  rw [hParts', ← List.cons_append] at hParts
  obtain ⟨-, hEq⟩ := List.append_inj' hParts rfl
  obtain rfl := (List.cons.inj hEq).1
  rcases hLast with ⟨hUp, -⟩ | ⟨hDots, -⟩
  · cases hUp
  · cases hDots

/-- A file is renamed over the file at a path when the path lets it. -/
theorem rename_eq (h : tree.LeadsToFile path place content mode) {source : Place} {node : Node}
    (hSource : tree.node? source = some node) :
    tree.rename source path =
      (tree.renameSlot path).map fun slot => (tree.put slot node).remove source := by
  unfold rename renameSlot
  cases (tree.obstacle? .replace path).or (refuse? path) with
  | some refusal => rfl
  | none =>
    dsimp only
    rw [h.slotFor_eq, hSource]
    by_cases hUp : (pathParts path).getLast? = some ['.', '.']
    · rw [if_pos hUp]
      rfl
    · rw [if_neg hUp]
      dsimp only
      rw [if_neg h.getLast?_ne, if_neg (by simp [h.node])]
      rfl

theorem eq_of_renameSlot (h : tree.LeadsToFile path place content mode) {slot : Place}
    (hSlot : tree.renameSlot path = .ok slot) : slot = place := by
  unfold renameSlot at hSlot
  split at hSlot
  · cases hSlot
  · rw [h.slotFor_eq] at hSlot
    split at hSlot
    · cases hSlot
    · exact (Except.ok.inj hSlot).symm

theorem renameSlot_congr {u : FileTree} {content' : Content} {mode' : Nat}
    (h : tree.LeadsToFile path place content mode) (h' : u.LeadsToFile path place content' mode')
    (hObstacles : u.obstacles = tree.obstacles) : u.renameSlot path = tree.renameSlot path := by
  unfold renameSlot obstacle?
  rw [hObstacles, h.slotFor_eq, h'.slotFor_eq]

end LeadsToFile

/-! ## Replacing -/

/-- Why the system refuses to replace the file at a path, when it does. -/
def replaceFault? (tree : FileTree) (path : Text) : Option FileFault :=
  let staged := stagedPath path
  match tree.obstacle? .inspect path with
  | some refusal => some ⟨.inspect, path, refusal⟩
  | none =>
    match tree.writeSlot staged with
    | .error refusal => some ⟨.write, staged, refusal⟩
    | .ok _ =>
      match tree.obstacle? .setPermissions staged with
      | some refusal => some ⟨.setPermissions, staged, refusal⟩
      | none =>
        match tree.renameSlot path with
        | .error refusal => some ⟨.replace, path, refusal⟩
        | .ok _ => none

/-- The tree without the sibling of the file at a path. -/
def withoutStaged (tree : FileTree) (path : Text) : FileTree :=
  match tree.writeSlot (stagedPath path) with
  | .ok slot => tree.remove slot
  | .error _ => tree

theorem withoutStaged_eq (h : ∀ node, tree.nodeAt (stagedPath path) ≠ .ok node) :
    tree.withoutStaged path = tree := by
  unfold withoutStaged
  split
  · rename_i slot hSlot
    obtain ⟨-, -, -, hSlotNe⟩ := exists_of_writeSlot hSlot
    exact tree.remove_of_node?_eq_none hSlotNe (node?_of_writeSlot hSlot h)
  · rfl

namespace LeadsToFile

/-- Once the sibling is written and has its permissions, it is renamed over the file, or the path
refuses that as it did before. -/
theorem rename_staged (h : tree.LeadsToFile path place content mode) {slot : Place}
    (hSlot : tree.writeSlot (stagedPath path) = .ok slot) (first second : Content)
    (firstMode secondMode : Nat) :
    ((tree.put slot (.file first firstMode)).put slot (.file second secondMode)).rename slot path =
      (tree.renameSlot path).map fun _ =>
        (tree.remove slot).put place (.file second secondMode) := by
  obtain ⟨-, -, hDirectory, hSlotNe⟩ := exists_of_writeSlot hSlot
  have hne := h.stagedSlot_ne hSlot
  have hWritten : (tree.put slot (.file first firstMode)).node? slot =
      some (.file first firstMode) := by rw [node?_put _ hSlotNe, if_pos rfl]
  have hSame := (sameDirectories_put hSlotNe hDirectory first firstMode).trans
    (sameWays_put hWritten second secondMode).toSameDirectories
  have hSource : ((tree.put slot (.file first firstMode)).put slot
      (.file second secondMode)).node? slot = some (.file second secondMode) := by
    rw [node?_put _ hSlotNe, if_pos rfl]
  -- the path still leads to the file, which is not at the place of the sibling
  have hFile : ((tree.put slot (.file first firstMode)).put slot
      (.file second secondMode)).LeadsToFile path place content mode := by
    refine h.congr hSame ?_
    rw [node?_put _ hSlotNe, if_neg hne.symm, node?_put _ hSlotNe, if_neg hne.symm]
  rw [hFile.rename_eq hSource, h.renameSlot_congr hFile (by simp)]
  cases hRename : tree.renameSlot path with
  | error refusal => rfl
  | ok slot' =>
    obtain rfl := h.eq_of_renameSlot hRename
    simp only [Except.map]
    rw [remove_put_of_ne _ hne, remove_put, remove_put]

/-- **The replacement of a file.** Either it is refused, for a reason that does not depend on the new
content, or the new content stands in the place of the old one, with its permissions. Nothing else
changes but that the sibling is gone. -/
theorem replaceFile_eq (h : tree.LeadsToFile path place content mode) (text : Text) :
    replaceFile tree path text =
      match tree.replaceFault? path with
      | some fault =>
        (.error fault, if fault.operation = .inspect then tree else tree.withoutStaged path)
      | none => (.ok (), (tree.withoutStaged path).put place (.file (.text text) mode)) := by
  unfold replaceFile replaceFault? withoutStaged mode?
  rw [h.nodeAt_eq]
  cases tree.obstacle? .inspect path with
  | some refusal => rfl
  | none =>
    dsimp only
    rw [writeText_eq]
    cases hSlot : tree.writeSlot (stagedPath path) with
    | error refusal => rfl
    | ok slot =>
      obtain ⟨-, -, -, hSlotNe⟩ := exists_of_writeSlot hSlot
      dsimp only [Except.map]
      generalize tree.modeAt slot = mode'
      -- the permissions are set where the content was written
      have hWritten : (tree.put slot (.file (.text text) mode')).node? slot =
          some (.file (.text text) mode') := by rw [node?_put _ hSlotNe, if_pos rfl]
      unfold takeMode setMode
      dsimp only
      rw [hWritten, obstacle?, obstacles_put, ← obstacle?]
      cases tree.obstacle? .setPermissions (stagedPath path) with
      | some refusal =>
        -- the sibling is taken away again
        dsimp only
        rw [remove_put]
        rfl
      | none =>
        dsimp only
        rw [h.rename_staged hSlot]
        cases tree.renameSlot path with
        | error refusal =>
          -- so it is when it could not be renamed
          dsimp only [Except.map]
          rw [remove_put, remove_put]
          rfl
        | ok slot' => rfl

end LeadsToFile

/-- Why the replacement of a file is refused depends on the ways and on what the system refuses. -/
theorem replaceFault?_congr {u : FileTree} (h : SameWays tree u)
    (hObstacles : u.obstacles = tree.obstacles) (path : Text) :
    u.replaceFault? path = tree.replaceFault? path := by
  unfold replaceFault? writeSlot renameSlot obstacle?
  simp only [hObstacles, h.slotFor_eq, h.directory]

/-- What can be read at a path is the content of a file. -/
theorem fileText_eq_ok_iff {source : Text} :
    fileText tree path = .ok source ↔ tree.obstacle? .read path = none ∧
      ∃ place mode, tree.LeadsToFile path place (.text source) mode := by
  unfold fileText readText
  constructor
  · intro h
    cases hObstacle : tree.obstacle? .read path with
    | some refusal =>
      rw [hObstacle] at h
      cases h
    | none =>
      rw [hObstacle] at h
      refine ⟨rfl, ?_⟩
      unfold nodeAt at h
      cases hFollow : follow tree path with
      | error refusal =>
        rw [hFollow] at h
        cases h
      | ok place =>
        rw [hFollow] at h
        dsimp only at h
        cases hNode : tree.node? place with
        | none =>
          rw [hNode] at h
          cases h
        | some node =>
          rw [hNode] at h
          match node, h, hNode with
          | .file (.text text) mode, h, hNode =>
            obtain rfl : text = source := Except.ok.inj h
            exact ⟨place, mode, hFollow, hNode⟩
  · rintro ⟨hObstacle, place, mode, hFile⟩
    rw [hObstacle, hFile.nodeAt_eq]
    rfl

/-- What can be read at a path depends on what stands there and on what the system refuses. -/
theorem fileText_congr {u : FileTree} (hObstacles : u.obstacles = tree.obstacles)
    (hNode : u.nodeAt path = tree.nodeAt path) : fileText u path = fileText tree path := by
  unfold fileText readText obstacle?
  rw [hObstacles, hNode]

end FileTree

end FieldFill
