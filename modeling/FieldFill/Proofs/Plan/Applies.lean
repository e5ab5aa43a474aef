import FieldFill.Proofs.Plan.Order

/-!
# Plans can be applied

A plan is applied from the end of the text to its start, so an insertion leaves every place that is
still to come where it was. All that is asked for is that the places are between two characters of
the text; several insertions may share one. The plan of a document has such places whatever the
document holds.

* `exists_insertInto?` — an insertion keeps the places in front of it.
* `exists_apply_of_positions` — a plan whose places are between two characters can be applied.
* `exists_apply_planDocument` — the plan of a document can be applied to it.
-/

namespace FieldFill

/-- An insertion can be made at its place, and the places in front of it stay. -/
theorem exists_insertInto? {text : Text} {i : Insertion}
    (hPlace : (splitAt? text i.offset).isSome = true) :
    ∃ out, i.insertInto? text = some out ∧ ∀ offset ≤ i.offset,
      (splitAt? text offset).isSome = true → (splitAt? out offset).isSome = true := by
  obtain ⟨⟨before, after⟩, hSplit⟩ := Option.isSome_iff_exists.1 hPlace
  refine ⟨_, by rw [Insertion.insertInto?, hSplit, Option.map_some], ?_⟩
  intro offset hle hEarlier
  obtain ⟨⟨front, back⟩, hFront⟩ := Option.isSome_iff_exists.1 hEarlier
  -- the text in front of the earlier place is in front of the insertion too
  obtain ⟨middle, rfl, -, -⟩ := exists_between hFront hSplit hle
  obtain ⟨-, rfl⟩ := eq_of_splitAt? hFront
  simp only [List.append_assoc, splitAt?_byteLength, Option.isSome_some]

/-- Insertions whose places descend can be made one after the other. -/
theorem exists_foldlM_insertInto? {text : Text} {list : List Insertion}
    (hSorted : list.Pairwise fun a b => b.offset ≤ a.offset)
    (hPlaces : ∀ i ∈ list, (splitAt? text i.offset).isSome = true) :
    ∃ out, list.foldlM (fun current i => i.insertInto? current) text = some out := by
  induction list generalizing text with
  | nil => exact ⟨text, rfl⟩
  | cons i list ih =>
    obtain ⟨hBehind, hMore⟩ := List.pairwise_cons.1 hSorted
    obtain ⟨hi, hOthers⟩ := List.forall_mem_cons.1 hPlaces
    obtain ⟨out, hOut, hKeeps⟩ := exists_insertInto? hi
    -- the later places are in front of this one, so they are still places of the new text
    obtain ⟨last, hLast⟩ := ih hMore fun j hj => hKeeps j.offset (hBehind j hj) (hOthers j hj)
    refine ⟨last, ?_⟩
    rw [List.foldlM_cons, hOut]
    exact hLast

/-- **A plan can be applied** to a text when each of its places is between two characters. -/
theorem exists_apply_of_positions {text : Text} {p : Plan}
    (hPlaces : ∀ i ∈ p.insertions, (splitAt? text i.offset).isSome = true) :
    ∃ out, p.apply text = some out :=
  exists_foldlM_insertInto? (pairwise_le_ordered p)
    fun i hi => hPlaces i ((List.mergeSort_perm _ _).mem_iff.1 hi)

section

variable {source : Text} {settings : Settings}

/-- The place of a site is between two characters. -/
theorem Site.Fills.isSome_splitAt? {c : ClassBlock} {site : Site}
    (hClass : c ∈ classesIn (layout source)) (h : site.Fills source settings c.block) :
    (splitAt? source (site.insertion source).offset).isSome = true := by
  obtain ⟨⟨before, after, hSplit⟩, home, hHome, hTokens⟩ := h.exists_home hClass
  show (splitAt? source (placeOf source site.start site.first)).isSome = true
  rcases placeOf_cases source site.start site.first with ⟨t, ht, -, hPlace⟩ | hPlace
  · -- behind a string, the place is the start of the next physical line
    obtain ⟨-, x, y, hStop⟩ := (isLineOf_of_mem hHome).splitAt?_token (hTokens ht)
    obtain ⟨rfl, hLength⟩ := eq_of_splitAt? hStop
    have hNext := splitAt?_byteLength (x ++ (breakLine y).1) (breakLine y).2
    rw [List.append_assoc, breakLine_append, byteLength_append, ← hLength,
      ← nextLineStart_eq hStop] at hNext
    rw [hPlace, hNext, Option.isSome_some]
  · -- otherwise it is the start of the line on which the statement stands
    obtain ⟨front, hFront, -, -, hStart⟩ := exists_lineStart hSplit
    obtain ⟨hSource, -⟩ := eq_of_splitAt? hSplit
    have hLine := splitAt?_byteLength front (leadAt source site.start ++ after)
    rw [← List.append_assoc, ← hFront, ← hSource, ← hStart] at hLine
    rw [hPlace, hLine, Option.isSome_some]

/-- **The plan of a document can be applied to it.** -/
theorem exists_apply_planDocument (source : Text) (settings : Settings) :
    ∃ out, (planDocument source settings).apply source = some out := by
  refine exists_apply_of_positions fun i hi => ?_
  obtain ⟨c, hClass, site, hSite, rfl⟩ := mem_insertions_iff.1 hi
  exact hSite.isSome_splitAt? hClass

end

end FieldFill
