import FieldFill.Proofs.Text.Lines

/-!
# Lines with their numbers and places

The lines of a text, each with its number and with the byte position where it starts. A line is where it
says: the text in front of it has as many bytes, and one newline for every line in front.

* `SourceLine`, `sourceLines` — the lines of a text, counted from one.
* `length_lines_of_ends`, `length_lines_le` — as many lines as newlines, and one more at the end.
* `exists_of_mem_sourceLines` — where a line stands in the text.
* `filter_sourceLines` — the lines below the one that a position falls on.
-/

namespace FieldFill

/-- A line of a text with its number and its first byte position. -/
structure SourceLine where
  row : Nat
  start : Nat
  text : Text
  deriving DecidableEq, Repr

/-- Lines in a row, the first of them with this number and at this place. -/
def numbered (row start : Nat) : List Text → List SourceLine
  | [] => []
  | line :: more => ⟨row, start, line⟩ :: numbered (row + 1) (start + byteLength line) more

def sourceLines (source : Text) : List SourceLine :=
  numbered 1 0 (lines source)

section

variable {row start : Nat} {a b ls : List Text} {l : SourceLine} {text : Text}

theorem numbered_append :
    numbered row start (a ++ b) =
      numbered row start a ++ numbered (row + a.length) (start + byteLength a.flatten) b := by
  induction a generalizing row start with
  | nil => rfl
  | cons line a ih =>
    rw [List.cons_append, numbered, ih, numbered, List.cons_append, List.length_cons,
      List.flatten_cons, byteLength_append, Nat.add_assoc, Nat.add_assoc, Nat.add_comm 1]

/-- A numbered line stands behind the lines in front of it. -/
theorem exists_of_mem_numbered (h : l ∈ numbered row start ls) :
    ∃ a b, ls = a ++ l.text :: b ∧ l.row = row + a.length ∧
      l.start = start + byteLength a.flatten := by
  induction ls generalizing row start with
  | nil => cases h
  | cons line more ih =>
    rcases List.mem_cons.1 h with rfl | hMore
    · exact ⟨[], more, rfl, rfl, rfl⟩
    · obtain ⟨a, b, rfl, hRow, hStart⟩ := ih hMore
      refine ⟨line :: a, b, rfl, ?_, ?_⟩
      · rw [hRow, List.length_cons]
        omega
      · rw [hStart, List.flatten_cons, byteLength_append]
        omega

theorem pairwise_row_numbered (row start : Nat) (ls : List Text) :
    (numbered row start ls).Pairwise fun l m => l.row < m.row := by
  induction ls generalizing row start with
  | nil => exact .nil
  | cons line more ih =>
    rw [numbered, List.pairwise_cons]
    refine ⟨fun m hm => ?_, ih _ _⟩
    obtain ⟨a, b, -, hRow, -⟩ := exists_of_mem_numbered hm
    dsimp only
    omega

/-! ## How many lines -/

theorem endsInNewline_of_cons {c : Char} (h : c :: text = [] ∨ endsInNewline (c :: text) = true)
    (hne : text ≠ []) : endsInNewline text = true :=
  @endsInNewline_of_append [c] text (h.resolve_left (List.cons_ne_nil c text)) hne

theorem length_lines_of_ends (h : text = [] ∨ endsInNewline text = true) :
    (lines text).length = newlines text := by
  induction text with
  | nil => rfl
  | cons c rest ih =>
    by_cases hc : c = '\n'
    · subst hc
      have hRest : rest = [] ∨ endsInNewline rest = true :=
        (Classical.em (rest = [])).imp id (endsInNewline_of_cons h)
      rw [lines, if_pos rfl, List.length_cons, ih hRest, newlines, newlines, List.count_cons_self]
    · -- the newline at the end is not the first character
      have hne : rest ≠ [] := by
        rintro rfl
        simp [endsInNewline, hc] at h
      have hLength := ih (.inr (endsInNewline_of_cons h hne))
      rw [lines_eq_cons hne, List.length_cons] at hLength
      rw [lines, if_neg hc, lines_eq_cons hne, List.length_cons, hLength, newlines, newlines,
        List.count_cons_of_ne hc]

theorem length_lines_le (text : Text) : (lines text).length ≤ newlines text + 1 := by
  obtain ⟨front, hText, hFront, hLast⟩ := exists_lastLine text
  have hLines : lines text = lines front ++ lines (lastLine text) := by
    rw [hText, lines_append_of_ends hFront, ← hText]
  have hOne : (lines (lastLine text)).length ≤ 1 := by
    by_cases hNil : lastLine text = []
    · simp [hNil, lines]
    · rw [lines_eq_cons hNil, breakLine_of_not_mem hLast]
      simp [lines]
  have hNewlines : newlines text = newlines front + newlines (lastLine text) :=
    (congrArg newlines hText).trans List.count_append
  rw [hLines, List.length_append, length_lines_of_ends hFront, hNewlines]
  omega

/-- A line has its newline at its end only. -/
theorem exists_of_mem_lines {line : Text} (h : line ∈ lines text) :
    ∃ row, '\n' ∉ row ∧ (line = row ∨ line = row ++ ['\n']) := by
  obtain ⟨a, b, hLines⟩ := List.append_of_mem h
  obtain ⟨-, hBack, -⟩ := lines_eq_append hLines
  have hne : (line :: b).flatten ≠ [] := by
    intro hNil
    rw [hNil] at hBack
    cases hBack
  rw [lines_eq_cons hne] at hBack
  obtain ⟨hFirst, -⟩ := List.cons.inj hBack
  obtain ⟨row, rest, hText, hRow, hRest⟩ := exists_first_row (line :: b).flatten
  rw [hText] at hFirst
  exact ⟨row, hRow, hFirst ▸ breakLine_append_of_not_mem hRow hRest⟩

/-! ## Where a line stands -/

/-- **Where a line stands**: at the start of a line, behind as many bytes and newlines as it says. -/
theorem exists_of_mem_sourceLines {source : Text} (h : l ∈ sourceLines source) :
    ∃ front back, source = front ++ (l.text ++ back) ∧ l.start = byteLength front ∧
      l.row = newlines front + 1 := by
  obtain ⟨a, b, hLines, hRow, hStart⟩ := exists_of_mem_numbered h
  obtain ⟨hFront, -, hEnds⟩ := lines_eq_append hLines
  have hComplete : a.flatten = [] ∨ endsInNewline a.flatten = true :=
    (hEnds (List.cons_ne_nil _ _)).imp_left fun hNil => by rw [hNil, List.flatten_nil]
  refine ⟨a.flatten, b.flatten, ?_, by rw [hStart, Nat.zero_add], ?_⟩
  · rw [← flatten_lines source, hLines, List.flatten_append, List.flatten_cons]
  · rw [hRow, ← length_lines_of_ends hComplete, hFront, Nat.add_comm]

theorem text_mem_lines {source : Text} (h : l ∈ sourceLines source) : l.text ∈ lines source := by
  obtain ⟨a, b, hLines, -⟩ := exists_of_mem_numbered h
  rw [hLines]
  exact List.mem_append_right a (List.mem_cons_self ..)

/-- **The lines below a place** are those of the text behind the line that the place is on. -/
theorem filter_sourceLines (front back : Text) :
    (sourceLines (front ++ back)).filter (fun l => newlines front + 1 < l.row) =
      numbered (newlines front + 2) (byteLength front + byteLength (breakLine back).1)
        (lines (breakLine back).2) := by
  -- the lines that are complete with the one of the place, and those behind
  have hAbove : ∀ ls : List Text, ls.length ≤ newlines front + 1 →
      (numbered 1 0 ls).filter (fun l => newlines front + 1 < l.row) = [] := by
    intro ls hLength
    rw [List.filter_eq_nil_iff]
    intro l hl
    obtain ⟨a, b, rfl, hRow, -⟩ := exists_of_mem_numbered hl
    rw [List.length_append, List.length_cons] at hLength
    rw [decide_eq_true_eq]
    omega
  have hBelow : ∀ start, ∀ ls : List Text, (numbered (newlines front + 2) start ls).filter
      (fun l => newlines front + 1 < l.row) = numbered (newlines front + 2) start ls := by
    intro start ls
    rw [List.filter_eq_self]
    intro l hl
    obtain ⟨a, b, -, hRow, -⟩ := exists_of_mem_numbered hl
    rw [decide_eq_true_eq]
    omega
  obtain ⟨line, rest, rfl, hLine, hRest⟩ := exists_first_row back
  have hNewlines : newlines (front ++ line) = newlines front := by
    rw [newlines, List.count_append, List.count_eq_zero.2 hLine]
    rfl
  rcases hRest with rfl | ⟨rest, rfl⟩
  · rw [List.append_nil, breakLine_of_not_mem hLine]
    refine hAbove _ ?_
    rw [← hNewlines]
    exact length_lines_le _
  · have hFirst : front ++ (line ++ '\n' :: rest) = (front ++ line ++ ['\n']) ++ rest := by simp
    have hEnds : endsInNewline (front ++ line ++ ['\n']) = true := endsInNewline_iff.2 ⟨_, rfl⟩
    have hLength : (lines (front ++ line ++ ['\n'])).length = newlines front + 1 := by
      rw [length_lines_of_ends (.inr hEnds), ← hNewlines, newlines, List.count_append]
      rfl
    rw [hFirst, breakLine_newline hLine, sourceLines, lines_append_of_ends (.inr hEnds),
      numbered_append, List.filter_append, hAbove _ (Nat.le_of_eq hLength), List.nil_append, hLength,
      flatten_lines, Nat.add_comm 1, hBelow, Nat.zero_add, List.append_assoc, byteLength_append]

end

end FieldFill
