import FieldFill.Files.Path
import Mathlib.Data.List.Induction

/-!
# Ways through a file tree

What a place holds after a change, and which paths a change can redirect. A path goes through
directories only, so it leads where it led before as long as the directories are the same and its
last place still holds something.

Main definitions:

* `FileTree.Different` — two paths that never lead to the same place.
* `SameDirectories` — two trees with the same directories.
* `SameWays` — two trees with something at the same places besides.

Main results:

* `FileTree.put_comm`, `FileTree.remove_put_of_ne` — changes of different places commute.
* `SameDirectories.follow_of_ok` — a path still leads to a place that still holds something.
* `SameWays.follow_eq`, `SameWays.slotFor_eq` — nothing is redirected, failures included.
-/

namespace FieldFill

namespace FileTree

variable (tree : FileTree) {place other : Place}

/-! ## Changes -/

/-- What a list of entries holds after a change of those at a place. -/
theorem find?_map_entry (entries : List (Place × Node)) (place other : Place) (node : Node) :
    ((entries.map fun e => if e.1 = place then (place, node) else e).find?
        fun e => e.1 = other).map Prod.snd =
      if other = place then (entries.find? fun e => e.1 = place).map fun _ => node
      else (entries.find? fun e => e.1 = other).map Prod.snd := by
  induction entries with
  | nil => simp
  | cons e entries ih =>
    rw [List.map_cons, List.find?_cons, List.find?_cons, List.find?_cons]
    -- an entry at the changed place stays where it is in the list, with the new node
    by_cases he : e.1 = place
    · by_cases hOther : other = place
      · simp [he, hOther]
      · have hne : ¬ place = other := fun h => hOther h.symm
        rw [if_neg hOther] at ih ⊢
        simpa [he, hne] using ih
    · by_cases hOther : e.1 = other
      · have hne : ¬ other = place := fun h => he (hOther.trans h)
        simp [hOther, hne]
      · rw [if_neg he]
        simpa [he, hOther] using ih

theorem any_entry_iff (hPlace : place ≠ []) :
    (tree.entries.any fun e => e.1 = place) = (tree.node? place).isSome := by
  rw [node?, if_neg hPlace, Option.isSome_map, Bool.eq_iff_iff, List.any_eq_true,
    List.find?_isSome]

theorem node?_put (hPlace : place ≠ []) (node : Node) (other : Place) :
    (tree.put place node).node? other = if other = place then some node else tree.node? other := by
  by_cases hRoot : other = []
  · subst hRoot
    rw [if_neg fun h => hPlace h.symm]
    rfl
  unfold put
  rw [any_entry_iff tree hPlace]
  split
  · -- the entry at the place is changed
    rename_i hSome
    rw [node?, if_neg hRoot, find?_map_entry, node?, if_neg hRoot]
    rw [node?, if_neg hPlace, Option.isSome_map] at hSome
    obtain ⟨e, he⟩ := Option.isSome_iff_exists.1 hSome
    rw [he, Option.map_some]
  · -- an entry is added behind all others
    rename_i hNone
    rw [node?, if_neg hRoot, node?, if_neg hRoot, List.find?_append, List.find?_singleton]
    by_cases hOther : other = place
    · subst hOther
      rw [node?, if_neg hRoot, Option.isSome_map, Option.not_isSome_iff_eq_none] at hNone
      rw [hNone]
      simp
    · have hne : ¬ place = other := fun h => hOther h.symm
      simp [hOther, hne]

theorem node?_remove (hPlace : place ≠ []) (other : Place) :
    (tree.remove place).node? other = if other = place then none else tree.node? other := by
  by_cases hRoot : other = []
  · subst hRoot
    rw [if_neg fun h => hPlace h.symm]
    rfl
  rw [node?, if_neg hRoot, remove, List.find?_filter, node?, if_neg hRoot]
  by_cases hOther : other = place
  · subst hOther
    rw [if_pos rfl, Option.map_eq_none_iff, List.find?_eq_none]
    intro e _
    simp
  · rw [if_neg hOther]
    congr 2
    funext e
    by_cases he : e.1 = other
    · simp [he, hOther]
    · simp [he]

theorem remove_of_node?_eq_none (hPlace : place ≠ []) (h : tree.node? place = none) :
    tree.remove place = tree := by
  -- no entry is at the place, so all are kept
  have hAll : (tree.entries.filter fun e => e.1 ≠ place) = tree.entries := by
    rw [List.filter_eq_self]
    intro e he
    rw [node?, if_neg hPlace, Option.map_eq_none_iff, List.find?_eq_none] at h
    simpa using h e he
  rw [remove, hAll]

theorem remove_put (place : Place) (node : Node) :
    (tree.put place node).remove place = tree.remove place := by
  unfold put
  split
  · simp only [remove, FileTree.mk.injEq, and_true]
    induction tree.entries with
    | nil => rfl
    | cons e entries ih =>
      rw [List.map_cons, List.filter_cons, List.filter_cons, ih]
      by_cases he : e.1 = place
      · simp [he]
      · simp [he]
  · simp [remove, List.filter_append]

/-- A change of one place and the removal of another one commute. -/
theorem remove_put_of_ne (hne : other ≠ place) (node : Node) :
    (tree.put place node).remove other = (tree.remove other).put place node := by
  -- the removal of another entry does not decide whether there is one to change
  have hAny : ((tree.entries.filter fun e => e.1 ≠ other).any fun e => e.1 = place) =
      tree.entries.any fun e => e.1 = place := by
    rw [List.any_filter]
    congr 1
    funext e
    by_cases he : e.1 = place
    · simp [he, hne.symm]
    · simp [he]
  unfold put
  rw [remove, remove]
  dsimp only
  rw [hAny]
  split
  · simp only [FileTree.mk.injEq, and_true]
    rw [List.filter_map]
    congr 1
    refine List.filter_congr fun e _ => ?_
    by_cases he : e.1 = place
    · simp [he, hne.symm]
    · simp [he]
  · simp [List.filter_append, hne.symm]

/-- Changes of two places at which something stands commute. -/
theorem put_comm (hPlace : (tree.node? place).isSome = true) (hPlaceNe : place ≠ [])
    (hOther : (tree.node? other).isSome = true) (hOtherNe : other ≠ []) (hne : place ≠ other)
    (node node' : Node) :
    (tree.put place node).put other node' = (tree.put other node').put place node := by
  -- neither change adds an entry, so both only replace entries of the same list
  have hAfter : ((tree.put place node).node? other).isSome = true := by
    rwa [node?_put _ hPlaceNe, if_neg hne.symm]
  have hAfter' : ((tree.put other node').node? place).isSome = true := by
    rwa [node?_put _ hOtherNe, if_neg hne]
  rw [← any_entry_iff _ hOtherNe] at hAfter hOther
  rw [← any_entry_iff _ hPlaceNe] at hAfter' hPlace
  rw [put, if_pos hAfter, put.eq_def (tree.put other node'), if_pos hAfter', put, if_pos hPlace,
    put, if_pos hOther]
  simp only [List.map_map, FileTree.mk.injEq, and_true]
  refine List.map_congr_left fun e _ => ?_
  by_cases he : e.1 = place
  · simp [he, hne]
  · by_cases he' : e.1 = other
    · simp [he', hne.symm]
    · simp [he, he']

@[simp] theorem workingDirectory_put (node : Node) :
    (tree.put place node).workingDirectory = tree.workingDirectory := by
  unfold put
  split <;> rfl

@[simp] theorem obstacles_put (node : Node) :
    (tree.put place node).obstacles = tree.obstacles := by
  unfold put
  split <;> rfl

@[simp] theorem workingDirectory_remove :
    (tree.remove place).workingDirectory = tree.workingDirectory := rfl

@[simp] theorem obstacles_remove : (tree.remove place).obstacles = tree.obstacles := rfl

end FileTree

/-! ## Different files -/

namespace FileTree

variable (tree : FileTree)

/-- Two paths never lead to the same place. -/
def Different (a b : Text) : Prop :=
  ∀ place, follow tree a = .ok place → follow tree b ≠ .ok place

instance : DecidableRel tree.Different := fun a b =>
  decidable_of_iff (∀ place ∈ (follow tree a).toOption, follow tree b ≠ .ok place) <| by
    unfold Different
    cases follow tree a <;> simp [Except.toOption]

variable {tree}

theorem Different.symm {a b : Text} (h : tree.Different a b) : tree.Different b a :=
  fun place hB hA => h place hA hB

end FileTree

/-! ## Directories -/

/-- Two trees have the same directories, the working directory among them. -/
structure SameDirectories (t u : FileTree) : Prop where
  workingDirectory : u.workingDirectory = t.workingDirectory
  directory : ∀ place, u.node? place = some .directory ↔ t.node? place = some .directory

namespace SameDirectories

variable {t u : FileTree} {place last : Place} {path part : Text} {parts : List Text}

theorem symm (h : SameDirectories t u) : SameDirectories u t :=
  ⟨h.workingDirectory.symm, fun place => (h.directory place).symm⟩

theorem trans {v : FileTree} (h : SameDirectories t u) (h' : SameDirectories u v) :
    SameDirectories t v :=
  ⟨h'.workingDirectory.trans h.workingDirectory,
    fun place => (h'.directory place).trans (h.directory place)⟩

theorem startOf_eq (h : SameDirectories t u) (path : Text) : u.startOf path = t.startOf path := by
  unfold FileTree.startOf
  rw [h.workingDirectory]

end SameDirectories

namespace FileTree

variable {tree : FileTree} {place last : Place} {part : Text} {parts : List Text}

/-- One part of a path can be followed in a directory only. -/
theorem node?_of_enter (h : tree.enter place part = .ok last) :
    tree.node? place = some .directory := by
  unfold enter at h
  split at h
  · cases h
  · rename_i hDirectory
    exact Decidable.not_not.1 hDirectory

theorem enterAll_concat (parts : List Text) (part : Text) :
    tree.enterAll place (parts ++ [part]) = tree.enterAll place parts >>= fun last =>
      tree.enter last part := by
  simp [enterAll, List.foldlM_append]

end FileTree

namespace SameDirectories

variable {t u : FileTree} {place last : Place} {path part : Text} {parts : List Text}

theorem enter_of_ok (h : SameDirectories t u) (hEnter : t.enter place part = .ok last)
    (hLast : (t.node? last).isSome = true → (u.node? last).isSome = true) :
    u.enter place part = .ok last := by
  have hDirectory := FileTree.node?_of_enter hEnter
  have hDirectory' := (h.directory place).2 hDirectory
  unfold FileTree.enter at hEnter ⊢
  rw [if_neg (not_not_intro hDirectory)] at hEnter
  rw [if_neg (not_not_intro hDirectory')]
  -- an empty part and one dot stay, two dots go up
  by_cases hStays : (part.isEmpty || part = ['.']) = true
  · rwa [if_pos hStays] at hEnter ⊢
  · rw [if_neg hStays] at hEnter ⊢
    by_cases hUp : part = ['.', '.']
    · rwa [if_pos hUp] at hEnter ⊢
    · -- only a name depends on what the directory holds
      rw [if_neg hUp] at hEnter ⊢
      unfold FileTree.child at hEnter ⊢
      split at hEnter
      · cases hEnter
      · rename_i hShort
        split at hEnter
        · rename_i hHolds
          obtain rfl := Except.ok.inj hEnter
          rw [if_neg hShort, if_pos (hLast hHolds)]
        · cases hEnter

theorem enterAll_of_ok (h : SameDirectories t u) (hEnter : t.enterAll place parts = .ok last)
    (hLast : (t.node? last).isSome = true → (u.node? last).isSome = true) :
    u.enterAll place parts = .ok last := by
  -- by induction on the parts from the last one on: what is in front of it leads to a directory
  induction parts using List.reverseRecOn generalizing last with
  | nil => exact hEnter
  | append_singleton parts part ih =>
    rw [FileTree.enterAll_concat] at hEnter ⊢
    cases hFront : t.enterAll place parts with
    | error refusal =>
      rw [hFront] at hEnter
      cases hEnter
    | ok middle =>
      rw [hFront] at hEnter
      have hDirectory := (h.directory middle).2 (FileTree.node?_of_enter hEnter)
      rw [ih hFront fun _ => by rw [hDirectory, Option.isSome_some]]
      exact h.enter_of_ok hEnter hLast

/-- **A path leads where it did** as long as what stood there has not vanished. -/
theorem follow_of_ok (h : SameDirectories t u) (hFollow : follow t path = .ok last)
    (hLast : (t.node? last).isSome = true → (u.node? last).isSome = true) :
    follow u path = .ok last := by
  unfold follow at hFollow ⊢
  split at hFollow
  · cases hFollow
  · rw [h.startOf_eq]
    exact h.enterAll_of_ok hFollow hLast

end SameDirectories

/-! ## Ways -/

/-- Two trees hold something at the same places, and the same directories. -/
structure SameWays (t u : FileTree) : Prop extends SameDirectories t u where
  holds : ∀ place, (u.node? place).isSome = (t.node? place).isSome

namespace SameWays

variable {t u : FileTree}

theorem refl (t : FileTree) : SameWays t t :=
  ⟨⟨rfl, fun _ => Iff.rfl⟩, fun _ => rfl⟩

theorem trans {v : FileTree} (h : SameWays t u) (h' : SameWays u v) : SameWays t v :=
  ⟨h.toSameDirectories.trans h'.toSameDirectories,
    fun place => (h'.holds place).trans (h.holds place)⟩

theorem enter_eq (h : SameWays t u) : u.enter = t.enter := by
  funext place part
  unfold FileTree.enter FileTree.child
  simp only [ne_eq, h.directory, h.holds]

theorem follow_eq (h : SameWays t u) (path : Text) : follow u path = follow t path := by
  unfold follow FileTree.enterAll
  rw [h.startOf_eq, h.enter_eq]

theorem slotFor_eq (h : SameWays t u) (path : Text) (parts : List Text) (dots : Refusal) :
    slotFor u path parts dots = slotFor t path parts dots := by
  unfold slotFor FileTree.enterAll
  rw [h.startOf_eq, h.enter_eq]
  simp only [ne_eq, h.directory]

end SameWays

/-! ## Files -/

section

variable {tree : FileTree} {place : Place} {content : Content} {mode : Nat}

theorem ne_nil_of_isFile (h : tree.node? place = some (.file content mode)) : place ≠ [] := by
  rintro rfl
  cases h

/-- A file in place of a file, or where nothing was, makes or takes no directory. -/
theorem sameDirectories_put (hPlace : place ≠ []) (h : tree.node? place ≠ some .directory)
    (content : Content) (mode : Nat) :
    SameDirectories tree (tree.put place (.file content mode)) := by
  refine ⟨tree.workingDirectory_put _, fun other => ?_⟩
  rw [tree.node?_put hPlace]
  split
  · rename_i hOther
    simp [hOther, h]
  · exact Iff.rfl

theorem sameDirectories_remove (hPlace : place ≠ []) (h : tree.node? place ≠ some .directory) :
    SameDirectories tree (tree.remove place) := by
  refine ⟨tree.workingDirectory_remove, fun other => ?_⟩
  rw [tree.node?_remove hPlace]
  split
  · rename_i hOther
    simp [hOther, h]
  · exact Iff.rfl

/-- A file in place of a file redirects no path. -/
theorem sameWays_put (h : tree.node? place = some (.file content mode)) (content' : Content)
    (mode' : Nat) : SameWays tree (tree.put place (.file content' mode')) := by
  have hPlace := ne_nil_of_isFile h
  refine ⟨sameDirectories_put hPlace (by simp [h]) content' mode', fun other => ?_⟩
  rw [tree.node?_put hPlace]
  split
  · rename_i hOther
    simp [hOther, h]
  · rfl

end

end FieldFill
