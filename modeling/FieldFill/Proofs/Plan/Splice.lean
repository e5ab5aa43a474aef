import FieldFill.Plan.Basic
import FieldFill.Proofs.Text.Lines
import FieldFill.Proofs.Text.Slice
import Mathlib.Data.List.TakeWhile

/-!
# Applying a plan is a splice

A plan is applied from the end of the text to its start, and every insertion looks at the text as
it is by then for the line ending to use. The text in front of a place is still that of the source
when its insertion is made, because all insertions made before stand behind it. So the result can
be written down in one pass from left to right, with everything read off the source.

Main definitions:

* `TakesLines` — whole lines can be inserted at a byte position.
* `block` — what one insertion puts in, read off the source.
* `parts`, `spliced` — the source cut at the places, and the blocks between its parts.

Main results:

* `lineEnding_eq` — the edited text behind a place does not matter for the line ending.
* `foldrM_insertInto?` — the state of the text after some insertions, the last places first.
* `apply_eq_spliced` — applying a plan gives the splice.
* `exists_sublist_interleave` — every line of the source is a line of the splice.
-/

namespace FieldFill

/-! ## Places and blocks -/

/-- Whole lines can be inserted at a byte position: it is not the start of the text, and it is
right behind a newline or the end of the text. -/
def TakesLines (source : Text) (offset : Nat) : Prop :=
  ∃ before after, splitAt? source offset = some (before, after) ∧ 0 < offset ∧
    (endsInNewline before = true ∨ after = [])

/-- The line ending of the last complete line of a text. -/
def lastEnding (before : Text) : Text :=
  match before.reverse.dropWhile (· ≠ '\n') with
  | '\n' :: '\r' :: _ => ['\r', '\n']
  | _ => ['\n']

/-- The last newline of a text stands right behind a carriage return. -/
def EndsInReturn (before : Text) : Prop :=
  ∃ front back, before = front ++ '\r' :: '\n' :: back ∧ '\n' ∉ back

/-- What an insertion puts into a text: its lines with the line ending of the line in front, and
one more line ending when the text ends there without one. -/
def block (source : Text) (i : Insertion) : Text :=
  match splitAt? source i.offset with
  | some (before, after) =>
    let ending := lastEnding before
    (if after.isEmpty && !endsInNewline source then ending else []) ++
      i.lines.flatMap fun line => i.indent ++ line ++ ending
  | none => []

/-- The text between two byte positions. -/
def part (source : Text) (start stop : Nat) : Text :=
  (slice? source start stop).getD []

/-- A text from one position on, cut at further ones. -/
def parts (source : Text) (start : Nat) : List Nat → List Text
  | [] => [part source start (byteLength source)]
  | offset :: more => part source start offset :: parts source offset more

/-- The parts of a text with blocks between them. -/
def interleave : List Text → List Text → Text
  | [], blocks => blocks.flatten
  | p :: ps, [] => p ++ ps.flatten
  | p :: ps, b :: blocks => p ++ b ++ interleave ps blocks

/-- The text with the insertions made from left to right. -/
def spliced (source : Text) (insertions : List Insertion) : Text :=
  interleave (parts source 0 (insertions.map Insertion.offset)) (insertions.map (block source))

/-! ## Line endings -/

theorem dropWhile_of_not_mem {text : Text} (h : '\n' ∉ text) :
    text.dropWhile (· ≠ '\n') = [] := by
  refine List.dropWhile_eq_nil_iff.2 fun c hc => ?_
  have hne : c ≠ '\n' := fun hEq => h (hEq ▸ hc)
  simpa using hne

theorem lastEnding_eq_iff {before : Text} :
    lastEnding before = ['\r', '\n'] ↔ EndsInReturn before := by
  constructor
  · intro h
    unfold lastEnding at h
    split at h
    · rename_i rest hDrop
      -- what is dropped stands behind the last newline
      refine ⟨rest.reverse, (before.reverse.takeWhile (· ≠ '\n')).reverse, ?_, ?_⟩
      · have hSplit := List.takeWhile_append_dropWhile (p := (· ≠ '\n')) (l := before.reverse)
        rw [hDrop] at hSplit
        have hReverse := congrArg List.reverse hSplit
        simpa using hReverse.symm
      · intro hMem
        have hKept := List.mem_takeWhile_imp (List.mem_reverse.1 hMem)
        simp at hKept
    · simp at h
  · rintro ⟨front, back, rfl, hBack⟩
    have hReverse : '\n' ∉ back.reverse := fun h => hBack (List.mem_reverse.1 h)
    have hDrop : (front ++ '\r' :: '\n' :: back).reverse.dropWhile (· ≠ '\n') =
        '\n' :: '\r' :: front.reverse := by
      have hText : (front ++ '\r' :: '\n' :: back).reverse =
          back.reverse ++ '\n' :: '\r' :: front.reverse := by simp
      rw [hText, List.dropWhile_append, dropWhile_of_not_mem hReverse]
      simp
    unfold lastEnding
    simp only [hDrop]

theorem lastEnding_cases (before : Text) :
    lastEnding before = ['\r', '\n'] ∨ lastEnding before = ['\n'] := by
  unfold lastEnding
  split
  · exact .inl rfl
  · exact .inr rfl

theorem lastEnding_of_not_mem {before : Text} (h : '\n' ∉ before) :
    lastEnding before = ['\n'] := by
  have hReverse : '\n' ∉ before.reverse := fun hMem => h (List.mem_reverse.1 hMem)
  rw [lastEnding, dropWhile_of_not_mem hReverse]

/-- The line ending of a text is that of its last line. -/
theorem lastEnding_append {b : Text} (hEnds : endsInNewline b = true) (hne : b ≠ ['\n']) (a : Text) :
    lastEnding (a ++ b) = lastEnding b := by
  obtain ⟨x, rfl⟩ := endsInNewline_iff.1 hEnds
  rcases List.eq_nil_or_concat x with rfl | ⟨y, c, rfl⟩
  · exact absurd rfl hne
  · -- what decides is the character in front of the last newline
    have hDrop : ∀ z : Text, (z ++ (y.concat c ++ ['\n'])).reverse.dropWhile (· ≠ '\n') =
        '\n' :: c :: (y.reverse ++ z.reverse) := fun z => by simp
    have hOwn := hDrop []
    rw [List.nil_append] at hOwn
    unfold lastEnding
    rw [hDrop, hOwn]
    by_cases hc : c = '\r'
    · subst hc
      rfl
    · simp [hc]

theorem mem_of_endsInNewline {text : Text} (h : endsInNewline text = true) : '\n' ∈ text := by
  unfold endsInNewline at h
  exact List.mem_of_getLast? (by simpa using h)

/-- **The line ending in use at a place is that of the source.** What stands behind the place is
looked at only when no line is complete, and then nothing stands there. -/
theorem lineEnding_eq {before after : Text} (h : '\n' ∈ before ∨ after = []) :
    lineEnding before after = lastEnding before := by
  by_cases hMem : '\n' ∈ before
  · have hContains : before.contains '\n' = true := by simpa using hMem
    rw [lineEnding, if_pos hContains]
    rfl
  · obtain rfl : after = [] := h.resolve_left hMem
    have hContains : ¬ before.contains '\n' = true := by simpa using hMem
    have hReverse : '\n' ∉ before.reverse := fun h => hMem (List.mem_reverse.1 h)
    rw [lineEnding, if_neg hContains, List.append_nil, breakLine_of_not_mem hMem,
      lastEnding_of_not_mem hMem]
    -- the reversed line begins with no newline
    split
    · rename_i rest hHead
      have hNewline : '\n' ∈ before.reverse := by
        rw [show before.reverse = '\n' :: '\r' :: rest from hHead]
        exact List.mem_cons_self ..
      exact absurd hNewline hReverse
    · rfl

/-! ## One insertion -/

/-- An insertion puts its block between the source in front of its place and whatever stands
behind it by now. -/
theorem insertInto?_eq {source before after : Text} {i : Insertion} (rest : Text)
    (hSplit : splitAt? source i.offset = some (before, after)) (hPos : 0 < i.offset)
    (hPlace : endsInNewline before = true ∨ after = []) (hRest : after = [] → rest = []) :
    i.insertInto? (before ++ rest) = some (before ++ (block source i ++ rest)) := by
  obtain ⟨hText, hOffset⟩ := eq_of_splitAt? hSplit
  have hEnding : lineEnding before rest = lastEnding before :=
    lineEnding_eq (hPlace.imp mem_of_endsInNewline hRest)
  have hNonempty : before.isEmpty = false := by
    cases before with
    | nil => simp [byteLength] at hOffset; omega
    | cons c before => rfl
  have hGap : (if before.isEmpty || endsInNewline before then [] else lastEnding before) =
      if after.isEmpty && !endsInNewline source then lastEnding before else [] := by
    rw [hNonempty, Bool.false_or]
    cases hNewline : endsInNewline before with
    | true =>
      -- nothing is missing: either text follows, or the source itself ends in this newline
      cases after with
      | nil =>
        rw [List.append_nil] at hText
        simp [hText, hNewline]
      | cons c after => simp
    | false =>
      obtain rfl : after = [] := hPlace.resolve_left (by simp [hNewline])
      rw [List.append_nil] at hText
      simp [hText, hNewline]
  unfold Insertion.insertInto?
  rw [hOffset, splitAt?_byteLength, Option.map_some]
  simp only [hEnding, hGap]
  unfold block
  rw [hSplit]
  simp only [Insertion.render, List.append_assoc]

/-! ## All insertions -/

theorem apply_of_insertions_eq_nil {plan : Plan} (h : plan.insertions = []) (text : Text) :
    plan.apply text = some text := by
  rw [Plan.apply, Plan.ordered, h, List.mergeSort_nil]
  rfl

/-- The plan of one insertion makes it. -/
theorem apply_singleton {plan : Plan} {i : Insertion} (h : plan.insertions = [i]) (text : Text) :
    plan.apply text = i.insertInto? text := by
  rw [Plan.apply, Plan.ordered, h, List.mergeSort_singleton, List.foldlM_cons]
  cases i.insertInto? text <;> rfl

theorem part_eq {source before after : Text} {start : Nat} {middle rest : Text}
    (hSplit : splitAt? source start = some (before, after)) (hAfter : after = middle ++ rest) :
    part source start (start + byteLength middle) = middle := by
  have hSlice : slice? source start (start + byteLength middle) = some middle :=
    (slice?_of_splitAt? hSplit).2 ⟨rest, hAfter, rfl⟩
  rw [part, hSlice]
  rfl

theorem part_to_end {source before after : Text} {start : Nat}
    (hSplit : splitAt? source start = some (before, after)) :
    part source start (byteLength source) = after := by
  obtain ⟨hText, hStart⟩ := eq_of_splitAt? hSplit
  have hStop : byteLength source = start + byteLength after := by
    rw [hText, byteLength_append, hStart]
  rw [hStop]
  exact part_eq hSplit (List.append_nil after).symm

/-- The parts of a text are the whole of it, in order. -/
theorem flatten_parts {source before after : Text} {start : Nat} {offsets : List Nat}
    (hSplit : splitAt? source start = some (before, after))
    (hSorted : (start :: offsets).Pairwise (· ≤ ·))
    (hPlaces : ∀ offset ∈ offsets, (splitAt? source offset).isSome = true) :
    (parts source start offsets).flatten = after := by
  induction offsets generalizing start before after with
  | nil => rw [parts, part_to_end hSplit, List.flatten_singleton]
  | cons offset more ih =>
    obtain ⟨hFirst, hMore⟩ := List.pairwise_cons.1 hSorted
    obtain ⟨⟨front, back⟩, hNext⟩ := Option.isSome_iff_exists.1 (hPlaces offset (by simp))
    obtain ⟨middle, rfl, rfl, hStop⟩ := exists_between hSplit hNext (hFirst offset (by simp))
    have hRest := ih hNext hMore fun o ho => hPlaces o (List.mem_cons_of_mem _ ho)
    rw [parts, List.flatten_cons, hRest, hStop, part_eq hSplit rfl]

theorem flatten_parts_all {source : Text} {offsets : List Nat} (hSorted : offsets.Pairwise (· < ·))
    (hPlaces : ∀ offset ∈ offsets, (splitAt? source offset).isSome = true) :
    (parts source 0 offsets).flatten = source := by
  have hStart : splitAt? source 0 = some ([], source) := splitAt?_byteLength [] source
  refine flatten_parts hStart (List.pairwise_cons.2 ⟨fun o _ => Nat.zero_le o, ?_⟩) hPlaces
  exact hSorted.imp fun h => Nat.le_of_lt h

/-- Behind the end of a text there is no further place. -/
theorem eq_nil_of_end {source front : Text} {offset : Nat} {list : List Insertion}
    (hEnd : splitAt? source offset = some (front, [])) (hBehind : ∀ i ∈ list, offset < i.offset)
    (hPlaces : ∀ i ∈ list, TakesLines source i.offset) : list = [] := by
  cases list with
  | nil => rfl
  | cons i list =>
    obtain ⟨before, after, hSplit, -⟩ := hPlaces i (List.mem_cons_self ..)
    obtain ⟨hText, hOffset⟩ := eq_of_splitAt? hSplit
    obtain ⟨hText', hOffset'⟩ := eq_of_splitAt? hEnd
    have hlt := hBehind i (List.mem_cons_self ..)
    have hTotal := congrArg byteLength (hText.symm.trans hText')
    rw [byteLength_append, List.append_nil] at hTotal
    omega

/-- **The text while a plan is applied.** With the insertions from `start` on made, the last places
first, the text is the source up to `start` and the splice of the rest. -/
theorem foldrM_insertInto? {source before after : Text} {start : Nat} {list : List Insertion}
    (hSplit : splitAt? source start = some (before, after))
    (hSorted : list.Pairwise fun a b => a.offset < b.offset)
    (hFirst : ∀ i ∈ list, start ≤ i.offset) (hPlaces : ∀ i ∈ list, TakesLines source i.offset) :
    list.foldrM (fun i current => i.insertInto? current) source =
      some (before ++ interleave (parts source start (list.map Insertion.offset))
        (list.map (block source))) := by
  induction list generalizing start before after with
  | nil =>
    obtain ⟨hText, -⟩ := eq_of_splitAt? hSplit
    rw [List.map_nil, List.map_nil, parts, part_to_end hSplit]
    simp [interleave, hText]
  | cons i more ih =>
    obtain ⟨hBehind, hMore⟩ := List.pairwise_cons.1 hSorted
    obtain ⟨front, back, hNext, hPos, hPlace⟩ := hPlaces i (by simp)
    obtain ⟨middle, rfl, rfl, hStop⟩ := exists_between hSplit hNext (hFirst i (by simp))
    -- what was inserted before stands behind the place of `i`
    have hRest := ih hNext hMore (fun j hj => Nat.le_of_lt (hBehind j hj))
      fun j hj => hPlaces j (List.mem_cons_of_mem _ hj)
    have hEnd : back = [] → interleave (parts source i.offset (more.map Insertion.offset))
        (more.map (block source)) = [] := by
      intro hBack
      subst hBack
      obtain rfl := eq_nil_of_end hNext hBehind fun j hj => hPlaces j (List.mem_cons_of_mem _ hj)
      rw [List.map_nil, List.map_nil, parts, part_to_end hNext]
      simp [interleave]
    rw [List.foldrM_cons, hRest, Option.bind_eq_bind, Option.bind_some,
      insertInto?_eq _ hNext hPos hPlace hEnd, List.map_cons, List.map_cons, parts, interleave,
      hStop, part_eq hSplit rfl]
    simp [List.append_assoc]

/-- The order in which the insertions of a plan are made: the last places first. -/
theorem pairwise_le_ordered (p : Plan) : p.ordered.Pairwise fun a b => b.offset ≤ a.offset := by
  have hMerge := @List.pairwise_mergeSort Insertion (fun a b => decide (b.offset ≤ a.offset))
    (fun a b c hab hbc => by simp only [decide_eq_true_eq] at *; omega)
    (fun a b => by simp only [Bool.or_eq_true, decide_eq_true_eq]; omega) p.insertions
  exact hMerge.imp fun h => of_decide_eq_true h

theorem pairwise_ordered {p : Plan}
    (hDistinct : p.insertions.Pairwise fun a b => a.offset ≠ b.offset) :
    p.ordered.Pairwise fun a b => b.offset < a.offset := by
  have hDiffer : p.ordered.Pairwise fun a b => a.offset ≠ b.offset :=
    (List.mergeSort_perm _ _).symm.pairwise hDistinct fun h => h.symm
  exact List.Pairwise.imp₂ (fun a b hle hne => Nat.lt_of_le_of_ne hle hne.symm)
    (pairwise_le_ordered p) hDiffer

/-- Insertions at different places can be sorted by place in one way only. -/
theorem eq_ordered_reverse {p : Plan} {sorted : List Insertion} (hPerm : sorted.Perm p.insertions)
    (hSorted : sorted.Pairwise fun a b => a.offset < b.offset) : sorted = p.ordered.reverse := by
  have hDistinct : p.insertions.Pairwise fun a b => a.offset ≠ b.offset :=
    hPerm.pairwise (hSorted.imp fun h => Nat.ne_of_lt h) fun h => h.symm
  have hReverse : p.ordered.reverse.Pairwise fun a b => a.offset < b.offset :=
    List.pairwise_reverse.2 (pairwise_ordered hDistinct)
  have hOrdered : sorted.Perm p.ordered.reverse :=
    hPerm.trans ((List.reverse_perm _).trans (List.mergeSort_perm _ _)).symm
  exact List.Perm.eq_of_pairwise
    (fun a b _ _ hab hba => absurd hab (Nat.lt_asymm hba)) hSorted hReverse hOrdered

/-- **Applying a plan is a splice** of the source at the places in order. -/
theorem apply_eq_spliced {source : Text} {p : Plan} {sorted : List Insertion}
    (hPerm : sorted.Perm p.insertions) (hSorted : sorted.Pairwise fun a b => a.offset < b.offset)
    (hPlaces : ∀ i ∈ p.insertions, TakesLines source i.offset) :
    p.apply source = some (spliced source sorted) := by
  have hStart : splitAt? source 0 = some ([], source) := splitAt?_byteLength [] source
  have hFold := foldrM_insertInto? hStart hSorted (fun i _ => Nat.zero_le _)
    fun i hi => hPlaces i (hPerm.mem_iff.1 hi)
  rw [eq_ordered_reverse hPerm hSorted] at hFold ⊢
  rw [List.foldrM_reverse, List.nil_append] at hFold
  exact hFold

/-! ## The lines of the source -/

/-- New lines are complete, or there are none. -/
theorem rows_ends (i : Insertion) (before : Text) :
    (i.lines.flatMap fun line => i.indent ++ line ++ lastEnding before) = [] ∨
      endsInNewline (i.lines.flatMap fun line => i.indent ++ line ++ lastEnding before) = true := by
  rcases List.eq_nil_or_concat i.lines with hNil | ⟨init, last, hLines⟩
  · exact .inl (by rw [hNil, List.flatMap_nil])
  · have hEnding : endsInNewline (lastEnding before) = true := by
      rcases lastEnding_cases before with h | h <;> rw [h] <;> rfl
    refine .inr ?_
    rw [hLines, List.concat_eq_append, List.flatMap_append, List.flatMap_singleton]
    exact endsInNewline_append (endsInNewline_append hEnding _) _

/-- A line ending that a last line may get: none when the line is complete. -/
def MayEnd (source ending : Text) : Prop :=
  ending = [] ∨ endsInNewline source = false ∧ (ending = ['\n'] ∨ ending = ['\r', '\n'])

/-- **Every line of the source is a line of the splice**, in order; a last line that is not complete
may be ended. -/
theorem exists_sublist_interleave {source before after : Text} {start : Nat}
    {list : List Insertion} (hSplit : splitAt? source start = some (before, after))
    (hSorted : list.Pairwise fun a b => a.offset < b.offset)
    (hFirst : ∀ i ∈ list, start ≤ i.offset) (hPlaces : ∀ i ∈ list, TakesLines source i.offset) :
    ∃ ending, MayEnd source ending ∧ (lines (after ++ ending)).Sublist
      (lines (interleave (parts source start (list.map Insertion.offset))
        (list.map (block source)))) := by
  induction list generalizing start before after with
  | nil =>
    refine ⟨[], .inl rfl, ?_⟩
    rw [List.map_nil, List.map_nil, parts, part_to_end hSplit]
    simp [interleave]
  | cons i more ih =>
    obtain ⟨hBehind, hMore⟩ := List.pairwise_cons.1 hSorted
    obtain ⟨hi, hOthers⟩ := List.forall_mem_cons.1 hPlaces
    obtain ⟨front, back, hNext, hPos, hPlace⟩ := hi
    obtain ⟨middle, rfl, rfl, hStop⟩ := exists_between hSplit hNext (hFirst i (by simp))
    obtain ⟨hText, -⟩ := eq_of_splitAt? hNext
    have hRows := rows_ends i (before ++ middle)
    have hParts : part source start i.offset = middle := by rw [hStop, part_eq hSplit rfl]
    rw [List.map_cons, List.map_cons, parts, interleave, hParts, block, hNext]
    dsimp only
    by_cases hGap : back = [] ∧ endsInNewline source = false
    · -- the last line is ended in front of the new lines
      obtain ⟨rfl, hEnd⟩ := hGap
      obtain rfl := eq_nil_of_end hNext hBehind hOthers
      have hEnding : endsInNewline (middle ++ lastEnding (before ++ middle)) = true := by
        refine endsInNewline_append ?_ middle
        rcases lastEnding_cases (before ++ middle) with h | h <;> rw [h] <;> rfl
      refine ⟨lastEnding (before ++ middle), .inr ⟨hEnd, (lastEnding_cases _).symm⟩, ?_⟩
      rw [hEnd, List.map_nil, List.map_nil, parts, part_to_end hNext]
      simp only [List.isEmpty_nil, Bool.not_false, Bool.and_self, if_true, interleave,
        List.flatten_nil, List.append_nil]
      rw [← List.append_assoc, lines_append_of_ends (.inr hEnding)]
      exact List.sublist_append_left _ _
    · obtain ⟨ending, hEnding, hSublist⟩ :=
        ih hNext hMore (fun j hj => Nat.le_of_lt (hBehind j hj)) hOthers
      have hFront : endsInNewline (before ++ middle) = true := by
        rcases hPlace with hEnds | rfl
        · exact hEnds
        · rw [← List.append_nil (before ++ middle), ← hText]
          simpa using hGap
      have hMiddle : middle = [] ∨ endsInNewline middle = true := by
        by_cases hNil : middle = []
        · exact .inl hNil
        · exact .inr (endsInNewline_of_append hFront hNil)
      have hNone : ¬ (back.isEmpty && !endsInNewline source) = true := by simpa using hGap
      refine ⟨ending, hEnding, ?_⟩
      rw [if_neg hNone, List.nil_append, List.append_assoc, List.append_assoc,
        lines_append_of_ends hMiddle, lines_append_of_ends hMiddle, lines_append_of_ends hRows]
      exact (List.Sublist.refl _).append (hSublist.trans (List.sublist_append_right _ _))

/-- **A plan with places of its own for each insertion can be applied**, and every line of the source
is a line of the new text. -/
theorem exists_apply {source : Text} {p : Plan}
    (hDistinct : p.insertions.Pairwise fun a b => a.offset ≠ b.offset)
    (hPlaces : ∀ i ∈ p.insertions, TakesLines source i.offset) :
    ∃ out, p.apply source = some out ∧
      ∃ ending, MayEnd source ending ∧ (lines (source ++ ending)).Sublist (lines out) := by
  have hSorted : p.ordered.reverse.Pairwise fun a b => a.offset < b.offset :=
    List.pairwise_reverse.2 (pairwise_ordered hDistinct)
  have hPerm : p.ordered.reverse.Perm p.insertions :=
    (List.reverse_perm _).trans (List.mergeSort_perm _ _)
  have hStart : splitAt? source 0 = some ([], source) := splitAt?_byteLength [] source
  exact ⟨_, apply_eq_spliced hPerm hSorted hPlaces, exists_sublist_interleave hStart hSorted
    (fun i _ => Nat.zero_le _) fun i hi => hPlaces i (hPerm.mem_iff.1 hi)⟩

/-- **A plan is applied as one splice of the source, from left to right.** For insertions at
different places that take whole lines, sorted by place, the new text consists of the parts of the
source between the places with the block of each insertion between them. The line ending of a
block is read off the source, the parts are the source whole and in order, and the order in which
the plan lists the insertions does not matter. -/
theorem apply_splices_source {source : Text} {p : Plan}
    (hDistinct : p.insertions.Pairwise fun a b => a.offset ≠ b.offset)
    (hPlaces : ∀ i ∈ p.insertions, TakesLines source i.offset) :
    (∃ sorted : List Insertion, sorted.Perm p.insertions ∧
      sorted.Pairwise fun a b => a.offset < b.offset) ∧
    ∀ sorted : List Insertion, sorted.Perm p.insertions →
      (sorted.Pairwise fun a b => a.offset < b.offset) →
      p.apply source = some (spliced source sorted) ∧
      (parts source 0 (sorted.map Insertion.offset)).flatten = source ∧
      (∀ i ∈ sorted, ∃ before after, splitAt? source i.offset = some (before, after) ∧
        (EndsInReturn before → lastEnding before = ['\r', '\n']) ∧
        (¬ EndsInReturn before → lastEnding before = ['\n'])) ∧
      ∀ other : Plan, other.insertions.Perm p.insertions → other.apply source = p.apply source := by
  have hReverse : p.ordered.reverse.Pairwise fun a b => a.offset < b.offset :=
    List.pairwise_reverse.2 (pairwise_ordered hDistinct)
  have hOrdered : p.ordered.reverse.Perm p.insertions :=
    (List.reverse_perm _).trans (List.mergeSort_perm _ _)
  refine ⟨⟨p.ordered.reverse, hOrdered, hReverse⟩, fun sorted hPerm hSorted => ?_⟩
  have hSource := apply_eq_spliced hPerm hSorted hPlaces
  have hSplits : ∀ i ∈ sorted, TakesLines source i.offset :=
    fun i hi => hPlaces i (hPerm.mem_iff.1 hi)
  refine ⟨hSource, ?parts, ?endings, ?permuted⟩
  case parts =>
    refine flatten_parts_all (List.pairwise_map.2 hSorted) fun offset hOffset => ?_
    obtain ⟨i, hi, rfl⟩ := List.mem_map.1 hOffset
    obtain ⟨before, after, hSplit, -⟩ := hSplits i hi
    rw [hSplit]
    rfl
  case endings =>
    intro i hi
    obtain ⟨before, after, hSplit, -⟩ := hSplits i hi
    refine ⟨before, after, hSplit, lastEnding_eq_iff.2, fun hNot => ?_⟩
    exact (lastEnding_cases before).resolve_left fun h => hNot (lastEnding_eq_iff.1 h)
  case permuted =>
    intro other hOther
    have hPlaces' : ∀ i ∈ other.insertions, TakesLines source i.offset :=
      fun i hi => hPlaces i (hOther.mem_iff.1 hi)
    rw [hSource, apply_eq_spliced (hPerm.trans hOther.symm) hSorted hPlaces']

/-- Two lines go behind a Windows line, and one to the end of a last line that is not complete. -/
theorem apply_splices_source_mixed :
    let source := "a\r\nb\nc".toList
    let x : Insertion := ⟨3, [' '], [['x'], ['y']]⟩
    let z : Insertion := ⟨6, [' '], [['z']]⟩
    ([z, x].Pairwise fun a b => a.offset ≠ b.offset) ∧
      (∀ i ∈ [z, x], TakesLines source i.offset) ∧
      (⟨[], [z, x]⟩ : Plan).apply source = some "a\r\n x\r\n y\r\nb\nc\n z\n".toList := by
  intro source x z
  have hDistinct : [z, x].Pairwise fun a b => a.offset ≠ b.offset := by decide
  have hPlaces : ∀ i ∈ [z, x], TakesLines source i.offset := by
    intro i hi
    obtain rfl | rfl : i = z ∨ i = x := by simpa using hi
    · exact ⟨"a\r\nb\nc".toList, [], rfl, by decide, .inr rfl⟩
    · exact ⟨"a\r\n".toList, "b\nc".toList, rfl, by decide, .inl rfl⟩
  have hPerm : [x, z].Perm [z, x] := List.Perm.swap z x []
  have hSplice := (apply_splices_source (p := ⟨[], [z, x]⟩) hDistinct hPlaces).2 [x, z] hPerm
    (by decide)
  exact ⟨hDistinct, hPlaces, hSplice.1⟩

end FieldFill
