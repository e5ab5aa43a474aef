import FieldFill.Text.Basic
import Mathlib.Data.List.TakeWhile

/-!
# Lines of a text

Where the first line of a text ends, where its other lines begin, and what is on its last line.

* `exists_first_row` — a text is its first line without the newline, and what follows.
* `lines_append` — a newline between two texts is between their lines.
* `lines_eq_append` — lines that are cut into two are the lines of two parts.
* `exists_of_mem_tail_lines`, `mem_tail_lines` — every line but the first begins behind a newline.
* `lastLine_append` — the last line begins behind the last newline.
-/

namespace FieldFill

/-! ## The first line -/

theorem breakLine_cons {c : Char} (hc : c ≠ '\n') (rest : Text) :
    breakLine (c :: rest) = (c :: (breakLine rest).1, (breakLine rest).2) := by
  rw [breakLine, if_neg hc]

theorem breakLine_of_not_mem {text : Text} (h : '\n' ∉ text) : breakLine text = (text, []) := by
  induction text with
  | nil => rfl
  | cons c rest ih =>
    have hc : c ≠ '\n' := fun hEq => h (hEq ▸ List.mem_cons_self ..)
    rw [breakLine, if_neg hc, ih fun hMem => h (List.mem_cons_of_mem _ hMem)]

theorem breakLine_append_left {a : Text} (h : '\n' ∉ a) (b : Text) :
    (breakLine (a ++ b)).1 = a ++ (breakLine b).1 := by
  induction a with
  | nil => rfl
  | cons c a ih =>
    have hc : c ≠ '\n' := fun hEq => h (hEq ▸ List.mem_cons_self ..)
    rw [List.cons_append, breakLine_cons hc, ih fun hMem => h (List.mem_cons_of_mem _ hMem)]
    rfl

theorem breakLine_newline {a : Text} (h : '\n' ∉ a) (b : Text) :
    breakLine (a ++ '\n' :: b) = (a ++ ['\n'], b) := by
  induction a with
  | nil => simp [breakLine]
  | cons c a ih =>
    have hc : c ≠ '\n' := fun hEq => h (hEq ▸ List.mem_cons_self ..)
    rw [List.cons_append, breakLine_cons hc, ih fun hMem => h (List.mem_cons_of_mem _ hMem)]
    rfl

/-- What can follow a logical line: nothing, or its newline. -/
def EndsLine (after : Text) : Prop :=
  after = [] ∨ ∃ rest, after = '\n' :: rest

theorem EndsLine.append {a b : Text} (ha : EndsLine a) (hb : EndsLine b) : EndsLine (a ++ b) := by
  rcases ha with rfl | ⟨rest, rfl⟩
  · exact hb
  · exact .inr ⟨rest ++ b, rfl⟩

/-- A text is its first line without the newline, and what follows that. -/
theorem exists_first_row (text : Text) :
    ∃ row rest, text = row ++ rest ∧ '\n' ∉ row ∧ EndsLine rest := by
  induction text with
  | nil => exact ⟨[], [], rfl, List.not_mem_nil, .inl rfl⟩
  | cons c text ih =>
    by_cases hc : c = '\n'
    · subst hc
      exact ⟨[], _, rfl, List.not_mem_nil, .inr ⟨text, rfl⟩⟩
    · obtain ⟨row, rest, rfl, hRow, hRest⟩ := ih
      refine ⟨c :: row, rest, rfl, fun hMem => ?_, hRest⟩
      rcases List.mem_cons.1 hMem with hEq | hMem
      · exact hc hEq.symm
      · exact hRow hMem

theorem breakLine_append_of_not_mem {a : Text} (h : '\n' ∉ a) {after : Text}
    (hAfter : EndsLine after) :
    (breakLine (a ++ after)).1 = a ∨ (breakLine (a ++ after)).1 = a ++ ['\n'] := by
  induction a with
  | nil =>
    rcases hAfter with rfl | ⟨rest, rfl⟩
    · exact .inl rfl
    · exact .inr (by simp [breakLine])
  | cons c a ih =>
    have hc : c ≠ '\n' := fun hEq => h (hEq ▸ List.mem_cons_self ..)
    have hMore := ih fun hMem => h (List.mem_cons_of_mem _ hMem)
    rw [List.cons_append, breakLine_cons hc, List.cons_append, List.cons.injEq, List.cons.injEq]
    exact hMore.imp (fun h => ⟨rfl, h⟩) fun h => ⟨rfl, h⟩

/-- Behind a line begins another one, or nothing. -/
theorem breakLine_ends (text : Text) :
    endsInNewline (breakLine text).1 = true ∨ (breakLine text).2 = [] := by
  obtain ⟨row, rest, rfl, hRow, hRest⟩ := exists_first_row text
  rcases hRest with rfl | ⟨rest, rfl⟩
  · rw [List.append_nil, breakLine_of_not_mem hRow]
    exact .inr rfl
  · rw [breakLine_newline hRow]
    exact .inl (by simp [endsInNewline])

theorem breakLine_breakLine (text : Text) :
    breakLine (breakLine text).1 = ((breakLine text).1, []) := by
  obtain ⟨row, rest, rfl, hRow, hRest⟩ := exists_first_row text
  rcases hRest with rfl | ⟨rest, rfl⟩
  · rw [List.append_nil, breakLine_of_not_mem hRow, breakLine_of_not_mem hRow]
  · rw [breakLine_newline hRow, breakLine_newline hRow]

theorem oneLine_of_append {a b : Text} (h : (breakLine (a ++ b)).2 = []) : (breakLine b).2 = [] := by
  induction a with
  | nil => exact h
  | cons c a ih =>
    by_cases hc : c = '\n'
    · subst hc
      obtain ⟨-, rfl⟩ : a = [] ∧ b = [] := by simpa [breakLine] using h
      rfl
    · rw [List.cons_append, breakLine_cons hc] at h
      exact ih h

/-! ## Texts that end a line -/

theorem endsInNewline_iff {text : Text} : endsInNewline text = true ↔ ∃ x, text = x ++ ['\n'] := by
  rw [endsInNewline, decide_eq_true_eq, List.getLast?_eq_some_iff]

theorem endsInNewline_append {b : Text} (h : endsInNewline b = true) (a : Text) :
    endsInNewline (a ++ b) = true := by
  obtain ⟨x, rfl⟩ := endsInNewline_iff.1 h
  exact endsInNewline_iff.2 ⟨a ++ x, (List.append_assoc ..).symm⟩

theorem endsInNewline_of_append {a b : Text} (h : endsInNewline (a ++ b) = true) (hb : b ≠ []) :
    endsInNewline b = true := by
  obtain ⟨last, hLast⟩ : ∃ last, b.getLast? = some last := ⟨_, List.getLast?_eq_some_getLast hb⟩
  rw [endsInNewline, List.getLast?_append, hLast] at h
  rw [endsInNewline, hLast]
  exact h

/-- The first line of a text that goes on is the first line whatever follows. -/
theorem breakLine_append_of_ends {a : Text} (h : endsInNewline a = true) (b : Text) :
    breakLine (a ++ b) = ((breakLine a).1, (breakLine a).2 ++ b) := by
  obtain ⟨x, rfl⟩ := endsInNewline_iff.1 h
  obtain ⟨row, rest, hx, hRow, hRest⟩ := exists_first_row x
  subst hx
  rcases hRest with rfl | ⟨rest, rfl⟩
  · rw [List.append_nil, List.append_assoc, List.singleton_append, breakLine_newline hRow,
      breakLine_newline hRow]
    rfl
  · simp only [List.append_assoc, List.cons_append]
    rw [breakLine_newline hRow, breakLine_newline hRow, List.append_assoc]
    rfl

/-! ## All lines -/

theorem lines_eq_cons {text : Text} (h : text ≠ []) :
    lines text = (breakLine text).1 :: lines (breakLine text).2 := by
  induction text with
  | nil => exact absurd rfl h
  | cons c rest ih =>
    by_cases hc : c = '\n'
    · simp [lines, breakLine, hc]
    · cases rest with
      | nil => simp [lines, breakLine, hc]
      | cons d rest =>
        rw [lines, if_neg hc, ih (by simp), breakLine_cons hc]

theorem lines_append (a rest : Text) :
    lines (a ++ '\n' :: rest) = lines (a ++ ['\n']) ++ lines rest := by
  induction a with
  | nil => rfl
  | cons c a ih =>
    rw [List.cons_append, List.cons_append]
    by_cases hc : c = '\n'
    · simp only [lines, hc, if_true, ih, List.cons_append]
    · obtain ⟨line, more, hLines⟩ : ∃ line more, lines (a ++ ['\n']) = line :: more :=
        ⟨_, _, lines_eq_cons (by simp)⟩
      rw [lines, if_neg hc, lines, if_neg hc, ih, hLines]
      rfl

theorem lines_append_of_ends {a : Text} (h : a = [] ∨ endsInNewline a = true) (b : Text) :
    lines (a ++ b) = lines a ++ lines b := by
  rcases h with rfl | hEnds
  · rfl
  · obtain ⟨x, rfl⟩ := endsInNewline_iff.1 hEnds
    rw [List.append_assoc, List.singleton_append, lines_append]

/-- The lines of a text, cut into two, are the lines of its two parts. -/
theorem lines_eq_append {text : Text} {xs ys : List Text} (h : lines text = xs ++ ys) :
    lines xs.flatten = xs ∧ lines ys.flatten = ys ∧
      (ys ≠ [] → xs = [] ∨ endsInNewline xs.flatten = true) := by
  induction xs generalizing text with
  | nil =>
    have hText : ys.flatten = text := by rw [← flatten_lines text, h, List.nil_append]
    exact ⟨rfl, by rw [hText, h, List.nil_append], fun _ => .inl rfl⟩
  | cons x xs ih =>
    have hne : text ≠ [] := by
      rintro rfl
      cases h
    rw [lines_eq_cons hne, List.cons_append, List.cons.injEq] at h
    obtain ⟨rfl, hMore⟩ := h
    obtain ⟨hxs, hys, hEnds⟩ := ih hMore
    have hx : (breakLine text).1 ≠ [] := by
      cases text with
      | nil => exact absurd rfl hne
      | cons c text => rw [breakLine]; split <;> simp
    have hLine : lines (breakLine text).1 = [(breakLine text).1] := by
      rw [lines_eq_cons hx, breakLine_breakLine]
      rfl
    rw [List.flatten_cons]
    -- the first line is complete, or there is nothing behind it
    rcases breakLine_ends text with hNewline | hNil
    · refine ⟨by rw [lines_append_of_ends (.inr hNewline), hLine, hxs]; rfl, hys, fun hne' => ?_⟩
      rcases hEnds hne' with rfl | hEnds
      · rw [List.flatten_nil, List.append_nil]
        exact .inr hNewline
      · exact .inr (endsInNewline_append hEnds _)
    · rw [hNil] at hMore
      obtain ⟨rfl, rfl⟩ := List.append_eq_nil_iff.1 hMore.symm
      rw [List.flatten_nil, List.append_nil]
      exact ⟨hLine, rfl, fun hne' => absurd rfl hne'⟩

/-- A physical line behind the first one starts behind a newline. -/
theorem exists_of_mem_tail_lines {text line : Text} (h : line ∈ (lines text).tail) :
    ∃ front back, text = front ++ '\n' :: back ∧ back ≠ [] ∧ line = (breakLine back).1 := by
  induction text with
  | nil => cases h
  | cons c rest ih =>
    by_cases hc : c = '\n'
    · subst hc
      have hMem : line ∈ lines rest := by simpa [lines] using h
      have hne : rest ≠ [] := by
        rintro rfl
        cases hMem
      rw [lines_eq_cons hne, List.mem_cons] at hMem
      rcases hMem with hFirst | hTail
      · exact ⟨[], rest, rfl, hne, hFirst⟩
      · have hLater : line ∈ (lines rest).tail := by rwa [lines_eq_cons hne]
        obtain ⟨front, back, hRest, hBack, hLine⟩ := ih hLater
        exact ⟨'\n' :: front, back, by rw [hRest]; rfl, hBack, hLine⟩
    · have hLater : line ∈ (lines rest).tail := by
        rw [lines, if_neg hc] at h
        split at h
        · cases h
        · rename_i first more hLines
          rw [hLines]
          exact h
      obtain ⟨front, back, hRest, hBack, hLine⟩ := ih hLater
      exact ⟨c :: front, back, by rw [hRest]; rfl, hBack, hLine⟩

theorem mem_tail_lines {front back : Text} (h : back ≠ []) :
    (breakLine back).1 ∈ (lines (front ++ '\n' :: back)).tail := by
  rw [lines_append, lines_eq_cons (by simp), List.cons_append, List.tail_cons, lines_eq_cons h]
  exact List.mem_append_right _ (List.mem_cons_self ..)

theorem mem_tail_of_mem_lines {a b row : Text} (h : row ∈ lines b) :
    row ∈ (lines (a ++ '\n' :: b)).tail := by
  rw [lines_append, lines_eq_cons (by simp), List.cons_append, List.tail_cons]
  exact List.mem_append_right _ h

/-! ## The last line -/

/-- The last line of a text begins behind a newline. -/
theorem lastLine_append {a b : Text} (ha : a = [] ∨ ∃ x, a = x ++ ['\n']) :
    lastLine (a ++ b) = lastLine b := by
  -- a newline in front of `b` ends the reversed line
  have hNone : a.reverse.takeWhile (· ≠ '\n') = [] := by
    rcases ha with rfl | ⟨x, rfl⟩
    · rfl
    · simp
  rw [lastLine, lastLine, List.reverse_append, List.takeWhile_append, hNone, List.append_nil]
  split
  · rename_i hAll
    rw [List.IsPrefix.eq_of_length (List.takeWhile_prefix _) hAll]
  · rfl

/-- A text is what stands in front of its last line, and its last line. -/
theorem exists_lastLine (text : Text) :
    ∃ front, text = front ++ lastLine text ∧ (front = [] ∨ endsInNewline front = true) ∧
      '\n' ∉ lastLine text := by
  have hSplit := congrArg List.reverse
    (List.takeWhile_append_dropWhile (p := (· ≠ '\n')) (l := text.reverse))
  rw [List.reverse_append, List.reverse_reverse] at hSplit
  refine ⟨_, hSplit.symm, ?_, fun hMem => ?_⟩
  · cases hDrop : text.reverse.dropWhile (· ≠ '\n') with
    | nil => exact .inl rfl
    | cons c rest =>
      have hHead := List.head_dropWhile_not (fun c : Char => decide (c ≠ '\n'))
        (l := text.reverse) (hDrop ▸ List.cons_ne_nil c rest)
      simp only [hDrop, List.head_cons] at hHead
      obtain rfl : c = '\n' := by simpa using hHead
      exact .inr (endsInNewline_iff.2 ⟨rest.reverse, List.reverse_cons⟩)
  · have hKept := List.mem_takeWhile_imp (List.mem_reverse.1 hMem)
    simp at hKept

theorem lastLine_of_not_mem {text : Text} (h : '\n' ∉ text) : lastLine text = text := by
  have hAll : ∀ c ∈ text.reverse, decide (c ≠ '\n') = true := by
    intro c hc
    have hne : c ≠ '\n' := fun hEq => h (hEq ▸ List.mem_reverse.1 hc)
    simpa using hne
  rw [lastLine, List.takeWhile_eq_self_iff.2 hAll, List.reverse_reverse]

end FieldFill
