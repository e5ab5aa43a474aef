import FieldFill.Proofs.Layout.Indentation
import FieldFill.Proofs.Outline.Classes

/-!
# Classes do not share statements

The block of a class may hold other classes with blocks of their own. Where every line goes deeper
than the one before, or back to an indentation that is open, a line is a direct statement of one class
at most: the lines between a class and a direct statement of it stand as deep as this statement, or
deeper, and so does the header of any class among them.

Main definition:

* `ConsistentIndent` — every line goes deeper, or back to an open indentation.

Main results:

* `indent_le_of_run` — no line of a block stands less deep than the first of them.
* `pairwise_classesIn` — no two classes have a direct statement in common.
-/

namespace FieldFill

/-! ## Consistent indentation -/

/-- How deep a line stands, by its indentation alone. -/
def Line.depth (l : Line) : Depth :=
  ⟨l.indent, l.indent⟩

/-- Every line goes deeper than the one before, or back to an indentation that is open. -/
def ConsistentIndent (ls : List Line) : Prop :=
  ((ls.map Line.depth).foldlM openAfter? []).isSome = true

instance : DecidablePred ConsistentIndent := fun ls =>
  inferInstanceAs (Decidable (((ls.map Line.depth).foldlM openAfter? []).isSome = true))

/-- **No line of a block stands less deep than the first of them.** -/
theorem indent_le_of_run {before block after : List Line} {c f d : Line}
    (h : ConsistentIndent (before ++ c :: (f :: block ++ after)))
    (hBlock : ∀ x ∈ f :: block, c.indent < x.indent) (hd : d ∈ block) : f.indent ≤ d.indent := by
  obtain ⟨last, hRun⟩ := Option.isSome_iff_exists.1 h
  rw [List.map_append, List.map_cons] at hRun
  obtain ⟨outer, hStack, hRest⟩ := exists_opened hRun
  rw [List.cons_append, List.map_cons, List.map_append, List.foldlM_cons] at hRest
  obtain ⟨opened, hFirst, hRest⟩ := Option.bind_eq_some_iff.1 hRest
  obtain ⟨hf, hMore⟩ := List.forall_mem_cons.1 hBlock
  obtain ⟨rfl, -⟩ := openAfter?_first hStack hFirst hf
  rw [List.foldlM_append] at hRest
  obtain ⟨inside, hInside, -⟩ := Option.bind_eq_some_iff.1 hRest
  have hOpen : Nested ([] ++ f.depth :: c.depth :: outer) := (hStack.openAfter? hFirst).1
  -- while the run stays inside the block, it does not close the indentation of the first line
  have hAbove := foldlM_above hOpen hInside fun x hx => by
    obtain ⟨l, hl, rfl⟩ := List.mem_map.1 hx
    exact hMore l hl
  exact (hAbove d.depth (List.mem_map_of_mem hd)).1

/-! ## Classes -/

/-- In lines in order, those in front of a line of a block are in the block, too. -/
theorem mem_takeWhile_of_lt {ls : List Line} {p : Line → Bool}
    (hSorted : ls.Pairwise fun a b => a.start < b.start) {a b : Line} (hb : b ∈ ls.takeWhile p)
    (ha : a ∈ ls) (hlt : a.start < b.start) : a ∈ ls.takeWhile p := by
  rw [← List.takeWhile_append_dropWhile (p := p) (l := ls)] at hSorted ha
  refine (List.mem_append.1 ha).resolve_right fun hBehind => ?_
  have hOrder := (List.pairwise_append.1 hSorted).2.2 b hb a hBehind
  omega

/-- A class and a later one have no direct statement in common. -/
theorem not_shared {before a behind : List Line} {c c' : Line}
    (hSorted : (a ++ c' :: behind).Pairwise fun a b => a.start < b.start)
    (hIndent : ConsistentIndent (before ++ c :: (a ++ c' :: behind)))
    {s s' : Line × List Line}
    (hs : s ∈ directStatements ((a ++ c' :: behind).takeWhile fun l => c.indent < l.indent))
    (hs' : s' ∈ directStatements (behind.takeWhile fun l => c'.indent < l.indent)) :
    s.1 ≠ s'.1 := by
  intro hSame
  obtain ⟨front, tail, hBlock, hBeside⟩ := exists_of_mem_directStatements hs
  obtain ⟨front', tail', hBlock', -⟩ := exists_of_mem_directStatements hs'
  have hMem : s.1 ∈ (a ++ c' :: behind).takeWhile fun l => c.indent < l.indent := by simp [hBlock]
  have hMem' : s.1 ∈ behind.takeWhile fun l => c'.indent < l.indent := by simp [hBlock', hSame]
  have hDeeper : c'.indent < s.1.indent := by simpa using List.mem_takeWhile_imp hMem'
  -- the header of the later class stands in front of the statement, so it is in the block
  have hBehind := (List.pairwise_cons.1 (List.pairwise_append.1 hSorted).2.1).1
  have hHeader := mem_takeWhile_of_lt hSorted hMem (by simp : c' ∈ a ++ c' :: behind)
    (hBehind s.1 (List.takeWhile_subset _ hMem'))
  have hSplit := List.takeWhile_append_dropWhile (p := fun l : Line => decide (c.indent < l.indent))
    (l := a ++ c' :: behind)
  have hAll : ∀ x ∈ (a ++ c' :: behind).takeWhile fun l => c.indent < l.indent,
      c.indent < x.indent := fun x hx => by simpa using List.mem_takeWhile_imp hx
  rw [← hSplit] at hIndent
  clear hBlock
  -- it stands no less deep than the first line of the block, which is as deep as the statement
  cases hList : (a ++ c' :: behind).takeWhile fun l => c.indent < l.indent with
  | nil =>
    rw [hList] at hMem
    cases hMem
  | cons first more =>
    rw [hList] at hHeader hAll hIndent hBeside
    have hFirst := hBeside first rfl
    rcases List.mem_cons.1 hHeader with rfl | hMore
    · omega
    · have hle := indent_le_of_run hIndent hAll hMore
      omega

/-- **No two classes have a direct statement in common.** -/
theorem pairwise_classesIn {before ls : List Line}
    (hSorted : ls.Pairwise fun a b => a.start < b.start) (hIndent : ConsistentIndent (before ++ ls)) :
    (classesIn ls).Pairwise fun c c' => ∀ s ∈ directStatements c.block,
      ∀ s' ∈ directStatements c'.block, s.1 ≠ s'.1 := by
  induction ls generalizing before with
  | nil => exact .nil
  | cons line rest ih =>
    have hMore := (List.pairwise_cons.1 hSorted).2
    have hTogether : ConsistentIndent ((before ++ [line]) ++ rest) := by simpa using hIndent
    have hRest := ih hMore hTogether
    rw [classesIn]
    split
    · refine List.pairwise_cons.2 ⟨fun c' hc' s hs s' hs' => ?_, hRest⟩
      obtain ⟨a, behind, hLines, -, hBlock⟩ := exists_of_mem_classesIn hc'
      rw [hLines] at hMore hIndent hs
      rw [hBlock] at hs'
      exact not_shared hMore hIndent hs hs'
    · exact hRest

end FieldFill
