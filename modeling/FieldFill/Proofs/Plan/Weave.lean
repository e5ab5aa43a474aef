import FieldFill.Proofs.Layout.Program
import FieldFill.Proofs.Layout.Statement
import FieldFill.Proofs.Plan.Splice

/-!
# Inserting between logical lines

When every insertion goes between two logical lines, applying a plan puts new lines among the logical
lines of the program. At the end of a program without a last newline, the last line is ended first.

Main definitions:

* `Insertion.rows` — the lines that an insertion puts in.
* `weave` — logical lines with the lines of some insertions between them.
* `closing` — the last logical line of a program, with what is inserted behind it.

Main results:

* `foldrM_weave` — insertions between logical lines.
* `foldrM_closing` — insertions at the end of a program.
-/

namespace FieldFill

/-! ## The lines of an insertion -/

/-- What stands in front of the newlines at the end of a text. -/
def returnOf (before : Text) : Text :=
  (lastEnding before).dropLast

theorem lastEnding_eq (before : Text) : lastEnding before = returnOf before ++ ['\n'] := by
  unfold returnOf
  rcases lastEnding_cases before with h | h <;> rw [h] <;> rfl

theorem returnOf_cases (before : Text) : returnOf before = [] ∨ returnOf before = ['\r'] := by
  unfold returnOf
  rcases lastEnding_cases before with h | h
  · exact .inr (by rw [h]; rfl)
  · exact .inl (by rw [h]; rfl)

theorem blankInLine_returnOf (before : Text) : BlankInLine (returnOf before) := by
  rcases returnOf_cases before with h | h
  · rw [h]
    exact ⟨fun c hc => absurd hc List.not_mem_nil, List.not_mem_nil⟩
  · rw [h]
    exact ⟨List.all_eq_true.1 rfl, by decide⟩

/-- The lines that an insertion puts in behind a text. -/
def Insertion.rows (i : Insertion) (before : Text) : List Text :=
  i.lines.map fun line => i.indent ++ line ++ returnOf before

theorem render_eq (i : Insertion) (before : Text) :
    i.render (lastEnding before) = ahead (i.rows before) := by
  rw [Insertion.render, ahead, Insertion.rows, List.flatMap_map, lastEnding_eq]
  simp only [List.append_assoc]

/-- The lines that some insertions put in behind some logical lines. -/
def newRows (list : List Insertion) (before : List Text) : List Text :=
  (list.filter fun i => i.offset = byteLength (ahead before)).flatMap
    fun i => i.rows (ahead before)

/-- Logical lines behind `before`, with the lines of some insertions between them. -/
def weave (list : List Insertion) (before : List Text) : List Text → List Text
  | [] => []
  | l :: more => newRows list before ++ l :: weave list (before ++ [l]) more

/-! ## Insertions that make no difference -/

theorem byteLength_ahead_lt (before : List Text) (l : Text) :
    byteLength (ahead before) < byteLength (ahead (before ++ [l])) := by
  have hNewline : byteLength ['\n'] = 1 := rfl
  rw [ahead_append, ahead_singleton, byteLength_append, byteLength_append, hNewline]
  omega

theorem byteLength_ahead_le (before a : List Text) :
    byteLength (ahead before) ≤ byteLength (ahead (before ++ a)) := by
  rw [ahead_append, byteLength_append]
  exact Nat.le_add_right _ _

theorem newRows_eq_nil {list : List Insertion} {before : List Text}
    (h : ∀ i ∈ list, i.offset ≠ byteLength (ahead before)) : newRows list before = [] := by
  have hNone : (list.filter fun i => i.offset = byteLength (ahead before)) = [] :=
    List.filter_eq_nil_iff.2 fun i hi => by simpa using h i hi
  rw [newRows, hNone, List.flatMap_nil]

theorem weave_append (list : List Insertion) (before a b : List Text) :
    weave list before (a ++ b) = weave list before a ++ weave list (before ++ a) b := by
  induction a generalizing before with
  | nil => rw [weave, List.nil_append, List.nil_append, List.append_nil]
  | cons l a ih =>
    rw [List.cons_append, weave, weave, ih]
    simp

/-- In front of all insertions, nothing is put in. -/
theorem weave_in_front {list : List Insertion} {before a : List Text}
    (h : ∀ i ∈ list, byteLength (ahead (before ++ a)) ≤ i.offset) : weave list before a = a := by
  induction a generalizing before with
  | nil => rfl
  | cons l a ih =>
    have hSplit : before ++ l :: a = (before ++ [l]) ++ a := by simp
    rw [hSplit] at h
    have hNone : newRows list before = [] := by
      refine newRows_eq_nil fun i hi hEq => ?_
      have hlt := byteLength_ahead_lt before l
      have hle := byteLength_ahead_le (before ++ [l]) a
      have hOffset := h i hi
      omega
    rw [weave, hNone, List.nil_append, ih h]

/-- Behind the place of an insertion, the insertion makes no difference. -/
theorem weave_behind {list : List Insertion} {i : Insertion} {before : List Text}
    (h : i.offset < byteLength (ahead before)) (ls : List Text) :
    weave (i :: list) before ls = weave list before ls := by
  induction ls generalizing before with
  | nil => rfl
  | cons l ls ih =>
    have hne : ¬ i.offset = byteLength (ahead before) := by omega
    have hlt := byteLength_ahead_lt before l
    rw [weave, weave, ih (by omega), newRows, newRows, List.filter_cons_of_neg (by simpa using hne)]

/-- At its place, the lines of an insertion are put in front of those of later ones. -/
theorem weave_cons {list : List Insertion} {i : Insertion} {before ls : List Text}
    (h : i.offset = byteLength (ahead before)) (hne : ls ≠ []) :
    weave (i :: list) before ls = i.rows (ahead before) ++ weave list before ls := by
  obtain ⟨l, more, rfl⟩ := List.exists_cons_of_ne_nil hne
  have hlt := byteLength_ahead_lt before l
  rw [weave, weave, weave_behind (by omega), newRows, newRows,
    List.filter_cons_of_pos (by simpa using h), List.flatMap_cons, List.append_assoc]

theorem weave_nil (before ls : List Text) : weave [] before ls = ls := by
  induction ls generalizing before with
  | nil => rfl
  | cons l ls ih =>
    rw [weave, ih, newRows_eq_nil fun i hi => absurd hi List.not_mem_nil, List.nil_append]

/-- Behind all insertions, nothing is put in. -/
theorem weave_behind_all {list : List Insertion} {before : List Text}
    (h : ∀ i ∈ list, i.offset < byteLength (ahead before)) (ls : List Text) :
    weave list before ls = ls := by
  induction list with
  | nil => exact weave_nil before ls
  | cons i list ih =>
    obtain ⟨hOffset, hMore⟩ := List.forall_mem_cons.1 h
    rw [weave_behind hOffset, ih hMore]

theorem weave_ne_nil {list : List Insertion} {before ls : List Text} (h : ls ≠ []) :
    weave list before ls ≠ [] := by
  obtain ⟨l, more, rfl⟩ := List.exists_cons_of_ne_nil h
  rw [weave]
  simp

/-! ## Insertions between logical lines -/

theorem intercalate_ahead (a : List Text) {b : List Text} (h : b ≠ []) :
    List.intercalate ['\n'] (a ++ b) = ahead a ++ List.intercalate ['\n'] b := by
  obtain ⟨l, more, rfl⟩ := List.exists_cons_of_ne_nil h
  rw [intercalate_append, intercalate_cons]

theorem newline_mem_ahead {a : List Text} (h : a ≠ []) : '\n' ∈ ahead a := by
  obtain ⟨l, more, rfl⟩ := List.exists_cons_of_ne_nil h
  simp [ahead]

theorem endsInNewline_ahead {a : List Text} (h : a ≠ []) : endsInNewline (ahead a) = true := by
  obtain ⟨x, hx⟩ := (ahead_ends a).resolve_left fun hNil => by
    have hMem := newline_mem_ahead h
    rw [hNil] at hMem
    cases hMem
  simp [endsInNewline, hx]

/-- Behind a complete line, an insertion puts in its rows. -/
theorem insertInto?_of_ends {i : Insertion} {before : Text} (hEnds : endsInNewline before = true)
    (hOffset : i.offset = byteLength before) (rest : Text) :
    i.insertInto? (before ++ rest) = some (before ++ (ahead (i.rows before) ++ rest)) := by
  have hEnding : lineEnding before rest = lastEnding before :=
    lineEnding_eq (.inl (mem_of_endsInNewline hEnds))
  rw [Insertion.insertInto?, hOffset, splitAt?_byteLength, Option.map_some]
  simp only [hEnding, hEnds, Bool.or_true, if_true, List.append_nil, render_eq, List.append_assoc]

theorem insertInto?_ahead {i : Insertion} {a : List Text} (h : a ≠ [])
    (hOffset : i.offset = byteLength (ahead a)) (rest : Text) :
    i.insertInto? (ahead a ++ rest) = some (ahead a ++ (ahead (i.rows (ahead a)) ++ rest)) :=
  insertInto?_of_ends (endsInNewline_ahead h) hOffset rest

/-- **Insertions between logical lines**, the last places first, put their lines in there. -/
theorem foldrM_weave {ls : List Text} {list : List Insertion}
    (hSorted : list.Pairwise fun i j => i.offset ≤ j.offset)
    (hPlaces : ∀ i ∈ list, ∃ a b, ls = a ++ b ∧ a ≠ [] ∧ b ≠ [] ∧
      i.offset = byteLength (ahead a)) :
    list.foldrM (fun i current => i.insertInto? current) (List.intercalate ['\n'] ls) =
      some (List.intercalate ['\n'] (weave list [] ls)) := by
  induction list with
  | nil => rw [weave_nil]; rfl
  | cons i list ih =>
    obtain ⟨hBehind, hMore⟩ := List.pairwise_cons.1 hSorted
    obtain ⟨⟨a, b, rfl, ha, hb, hOffset⟩, hPlaces⟩ := List.forall_mem_cons.1 hPlaces
    -- the text in front of the place is as it was
    have hList : ∀ j ∈ list, byteLength (ahead ([] ++ a)) ≤ j.offset := by
      intro j hj
      have hle := hBehind j hj
      rw [List.nil_append]
      omega
    have hBoth : ∀ j ∈ i :: list, byteLength (ahead ([] ++ a)) ≤ j.offset :=
      List.forall_mem_cons.2 ⟨by rw [List.nil_append]; omega, hList⟩
    rw [List.foldrM_cons, ih hMore hPlaces, Option.bind_eq_bind, Option.bind_some,
      weave_append, weave_append, weave_in_front hList, weave_in_front hBoth, List.nil_append,
      intercalate_ahead a (weave_ne_nil hb), insertInto?_ahead ha hOffset, weave_cons hOffset hb,
      intercalate_ahead a (by simp [weave_ne_nil hb]), intercalate_ahead _ (weave_ne_nil hb)]

/-! ## Insertions at the end -/

/-- Insertions at the end of a text without a last newline each end the line first. -/
theorem foldrM_closing {text : Text} (hNewline : '\n' ∈ text) (hEnd : endsInNewline text = false)
    {list : List Insertion} (hPlaces : ∀ i ∈ list, i.offset = byteLength text) :
    list.foldrM (fun i current => i.insertInto? current) text =
      some (text ++ list.flatMap fun i =>
        returnOf text ++ '\n' :: ahead (i.rows text)) := by
  induction list with
  | nil => rw [List.foldrM_nil, List.flatMap_nil, List.append_nil]; rfl
  | cons i list ih =>
    obtain ⟨hOffset, hMore⟩ := List.forall_mem_cons.1 hPlaces
    have hNonempty : text.isEmpty = false := by
      cases text with
      | nil => cases hNewline
      | cons c text => rfl
    rw [List.foldrM_cons, ih hMore, Option.bind_eq_bind, Option.bind_some, Insertion.insertInto?,
      hOffset, splitAt?_byteLength, Option.map_some]
    simp only [lineEnding_eq (.inl hNewline), hNonempty, hEnd, Bool.or_self, Bool.false_eq_true,
      if_false, render_eq, List.flatMap_cons, List.append_assoc]
    rw [lastEnding_eq, List.append_assoc]
    rfl

/-- The last logical line of a program with what some insertions put in behind it. -/
def closing (text l : Text) (list : List Insertion) : List Text :=
  match list with
  | [] => [l]
  | i :: more =>
    (l ++ returnOf text) ::
      (i.rows text ++ (more.flatMap fun j => returnOf text :: j.rows text) ++ [[]])

theorem flatMap_closing (text : Text) (list : List Insertion) :
    (list.flatMap fun i => returnOf text ++ '\n' :: ahead (i.rows text)) =
      ahead (list.flatMap fun i => returnOf text :: i.rows text) := by
  induction list with
  | nil => rfl
  | cons i list ih =>
    rw [List.flatMap_cons, List.flatMap_cons, ih, ahead_append]
    simp [ahead]

/-- **Insertions at the end of a program**, as lines of the program. -/
theorem foldrM_end {init : List Text} {l : Text} (hInit : init ≠ [])
    (hEnd : endsInNewline (List.intercalate ['\n'] (init ++ [l])) = false) {list : List Insertion}
    (hPlaces : ∀ i ∈ list, i.offset = byteLength (List.intercalate ['\n'] (init ++ [l]))) :
    list.foldrM (fun i current => i.insertInto? current) (List.intercalate ['\n'] (init ++ [l])) =
      some (List.intercalate ['\n']
        (init ++ closing (List.intercalate ['\n'] (init ++ [l])) l list)) := by
  have hText : List.intercalate ['\n'] (init ++ [l]) = ahead init ++ l := by
    rw [intercalate_ahead init (by simp), List.intercalate_singleton]
  have hNewline : '\n' ∈ ahead init ++ l :=
    List.mem_append_left _ (newline_mem_ahead hInit)
  rw [hText] at hEnd hPlaces ⊢
  rw [foldrM_closing hNewline hEnd hPlaces]
  cases list with
  | nil =>
    rw [List.flatMap_nil, List.append_nil, closing, hText]
  | cons i more =>
    let rows := i.rows (ahead init ++ l)
    let others := more.flatMap fun j =>
      returnOf (ahead init ++ l) :: j.rows (ahead init ++ l)
    have hLines : init ++ closing (ahead init ++ l) l (i :: more) =
        (init ++ ([l ++ returnOf (ahead init ++ l)] ++ (rows ++ others))) ++ [[]] := by
      simp [closing, rows, others]
    rw [hLines, intercalate_ahead _ (by simp), List.intercalate_singleton, List.flatMap_cons,
      flatMap_closing]
    simp only [ahead_append, ahead_singleton, List.append_assoc, List.append_nil, rows, others]
    rfl

end FieldFill
