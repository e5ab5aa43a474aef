import FieldFill.Plan.Document
import FieldFill.Proofs.Parameter.Cut

/-!
# What stands between a bracket and the one that closes it

The search for a closing bracket scans the text from the opening bracket on, with all that follows
in view. Cutting scans what stands between the two brackets alone. The two scans go in step: the
search is in the state of the inner scan with one more bracket below (`State.within`), up to the
first bracket that closes nothing on the inside, which is the one that closes the outer bracket.

Main results:

* `closingFrom?_within` — the search stops where the inner text is closed and a bracket closes.
* `endFrom_within` — without such a place, the outer bracket is never closed.
* `closingAt_iff_closes` — the search finds a bracket exactly when the text up to it can be cut.
-/

namespace FieldFill

/-- The state with one more open bracket around all others. -/
def State.within (outer : Nat) (s : State) : State :=
  { s with openers := s.openers ++ [outer] }

theorem State.depth_within (outer : Nat) (s : State) : (s.within outer).depth = s.depth + 1 := by
  simp [State.within, State.depth]

theorem State.shift_eq_start {distance : Nat} {s : State} :
    s.shift distance = .start ↔ s = .start := by
  constructor
  · intro h
    obtain ⟨mode, skip, openers, unbalanced⟩ := s
    simp only [State.shift, State.start, State.mk.injEq, List.map_eq_nil_iff,
      Option.map_eq_none_iff] at h
    obtain ⟨hMode, rfl, rfl, rfl⟩ := h
    -- moving keeps the kind of the mode
    cases mode with
    | code => rfl
    | literal quote escaped => cases hMode
    | comment => cases hMode
  · rintro rfl
    rfl

namespace Reads

variable {offset : Nat} {c : Char} {rest : Text} {s next : State} {region : Region}

/-- As long as every bracket closes something, a bracket around the text changes nothing. -/
theorem within (h : Reads offset c rest s region next) (outer : Nat)
    (hNext : next.unbalanced = none) :
    Reads offset c rest (s.within outer) region (next.within outer) := by
  cases h with
  | delimiter more => exact .delimiter more
  | newline hc => exact .newline hc
  | remark hc => exact .remark hc
  | escaped quote => exact .escaped quote
  | escape quote hc => exact .escape quote hc
  | endQuote quote hc hChar hTriple => exact .endQuote quote hc hChar hTriple
  | inside quote hc hChar => exact .inside quote hc hChar
  | hash hc => exact .hash hc
  | quote hc => exact .quote hc
  | opener hc => exact .opener hc
  | closer inner outers hc => exact .closer inner (outers ++ [outer]) hc
  | @stray unbalanced hc =>
    -- it would close the outer bracket
    cases unbalanced <;> simp at hNext
  | plain hc => exact .plain hc

/-- The first bracket that closes nothing stands where nothing is open. -/
theorem stray_of_unbalanced (h : Reads offset c rest s region next) (hs : s.unbalanced = none)
    (hNext : next.unbalanced ≠ none) : isCloser c = true ∧ s = .start := by
  cases h with
  | @stray unbalanced hc =>
    obtain rfl : unbalanced = none := hs
    exact ⟨hc, rfl⟩
  | delimiter | newline | remark | escaped | escape | endQuote | inside | hash | quote | opener
  | closer | plain => exact absurd hs hNext

end Reads

/-! ## The search -/

theorem closingFrom?_closer {closer : Char} (hc : isCloser closer = true) (outer offset : Nat)
    (rest : Text) :
    closingFrom? (State.start.within outer) offset true (closer :: rest) =
      some ([], closer :: rest) := by
  have hRead : Reads offset closer rest (State.start.within outer) .code .start :=
    .closer outer [] hc
  rw [closingFrom?, hRead.step_eq]
  simp [hc, State.start, State.depth]

theorem closingFrom?_cons {offset : Nat} {c : Char} {rest : Text} {s next : State}
    {region : Region} (h : Reads offset c rest s region next) (hNext : next.unbalanced = none)
    (outer : Nat) :
    closingFrom? (s.within outer) offset true (c :: rest) =
      (closingFrom? (next.within outer) (offset + c.utf8Size) true rest).map
        fun (before, after) => (c :: before, after) := by
  rw [closingFrom?, (h.within outer hNext).step_eq]
  simp [State.depth_within]

theorem closingFrom?_of_endFrom {s : State} (hs : s.Proper) (outer offset : Nat)
    {inner rest : Text} {closer : Char} (hc : isCloser closer = true)
    (hEnd : endFrom s offset inner = .start) :
    closingFrom? (s.within outer) offset true (inner ++ closer :: rest) =
      some (inner, closer :: rest) := by
  induction inner generalizing s offset with
  | nil =>
    obtain rfl : s = .start := hEnd
    exact closingFrom?_closer hc outer offset rest
  | cons c inner ih =>
    have hRead := reads_step s offset c inner
    rw [hRead.endFrom_cons] at hEnd
    -- the inner text ends with nothing unbalanced, so there was nothing on the way
    have hNext : (s.step offset c inner).2.unbalanced = none :=
      unbalanced_of_endFrom (congrArg State.unbalanced hEnd)
    have hSeam : Apart (c :: inner) (closer :: rest) :=
      Apart.cons_right _ _ (not_isQuote_of_isCloser hc)
    rw [List.cons_append, closingFrom?_cons (hRead.append hs hSeam) hNext,
      ih (hRead.proper hs) _ hEnd, Option.map_some]

theorem exists_of_closingFrom? {s : State} (hs : s.Proper) (hNone : s.unbalanced = none)
    {outer offset : Nat} {text inner after : Text}
    (h : closingFrom? (s.within outer) offset true text = some (inner, after)) :
    ∃ closer rest, after = closer :: rest ∧ text = inner ++ closer :: rest ∧
      isCloser closer = true ∧ endFrom s offset inner = .start := by
  induction text generalizing s offset inner with
  | nil => cases h
  | cons c text ih =>
    have hRead := reads_step s offset c text
    by_cases hNext : (s.step offset c text).2.unbalanced = none
    · -- the character belongs to the inner text
      rw [closingFrom?_cons hRead hNext] at h
      obtain ⟨⟨before, rest⟩, hRest, hEq⟩ := Option.map_eq_some_iff.1 h
      obtain ⟨rfl, rfl⟩ := Prod.mk.inj hEq
      obtain ⟨closer, more, rfl, rfl, hc, hEnd⟩ := ih (hRead.proper hs) hNext hRest
      refine ⟨closer, more, rfl, rfl, hc, ?_⟩
      -- `c` was read with the closing bracket in view, which is no quote
      have hSeam : Apart (c :: before) (closer :: more) :=
        Apart.cons_right _ _ (not_isQuote_of_isCloser hc)
      rw [endFrom, ← step_append hs offset hSeam]
      exact hEnd
    · -- it closes nothing there, so it closes the outer bracket
      obtain ⟨hc, rfl⟩ := hRead.stray_of_unbalanced hNone hNext
      rw [closingFrom?_closer hc] at h
      obtain ⟨rfl, rfl⟩ := Prod.mk.inj (Option.some.inj h)
      exact ⟨c, text, rfl, rfl, hc, rfl⟩

/-- **The search stops where the inner text is closed** and a bracket closes. -/
theorem closingFrom?_within {s : State} (hs : s.Proper) (hNone : s.unbalanced = none)
    {outer offset : Nat} {text inner after : Text} :
    closingFrom? (s.within outer) offset true text = some (inner, after) ↔
      ∃ closer rest, after = closer :: rest ∧ text = inner ++ closer :: rest ∧
        isCloser closer = true ∧ endFrom s offset inner = .start := by
  constructor
  · exact exists_of_closingFrom? hs hNone
  · rintro ⟨closer, rest, rfl, rfl, hc, hEnd⟩
    exact closingFrom?_of_endFrom hs outer offset hc hEnd

/-- A search that finds nothing never leaves the outer bracket. -/
theorem endFrom_within {s : State} (hNone : s.unbalanced = none) {outer offset : Nat} {text : Text}
    (h : closingFrom? (s.within outer) offset true text = none) :
    ∃ last : State, endFrom (s.within outer) offset text = last.within outer ∧
      last.unbalanced = none := by
  induction text generalizing s offset with
  | nil => exact ⟨s, rfl, hNone⟩
  | cons c text ih =>
    have hRead := reads_step s offset c text
    by_cases hNext : (s.step offset c text).2.unbalanced = none
    · rw [closingFrom?_cons hRead hNext, Option.map_eq_none_iff] at h
      rw [(hRead.within outer hNext).endFrom_cons]
      exact ih hNext h
    · -- here the search would have stopped
      obtain ⟨hc, rfl⟩ := hRead.stray_of_unbalanced hNone hNext
      rw [closingFrom?_closer hc] at h
      cases h

theorem State.fault?_within {s : State} (hNone : s.unbalanced = none) (outer : Nat) :
    (∃ quote offset, (s.within outer).fault? = some (.unterminatedString quote offset)) ∨
      (s.within outer).fault? = some (.unterminatedNesting (s.depth + 1) outer) := by
  obtain ⟨mode, skip, openers, unbalanced⟩ := s
  obtain rfl : unbalanced = none := hNone
  -- an open string is reported before any bracket
  cases mode with
  | literal quote escaped => exact .inl ⟨quote.delimiter, quote.start, rfl⟩
  | code | comment => exact .inr (by simp [State.within, State.fault?, State.depth])

/-! ## From an opening bracket -/

theorem utf8Size_of_isOpener {c : Char} (h : isOpener c = true) : c.utf8Size = 1 := by
  rcases isOpener_iff.1 h with rfl | rfl | rfl <;> rfl

section Opener

variable {c : Char} {tail : Text}

theorem closingFrom?_opener (hc : isOpener c = true) :
    closingFrom? .start 0 false (c :: tail) =
      (closingFrom? (State.start.within 0) 1 true tail).map
        fun (before, after) => (c :: before, after) := by
  have hRead : Reads 0 c tail .start .code (State.start.within 0) := .opener hc
  rw [closingFrom?, hRead.step_eq]
  simp [hc, utf8Size_of_isOpener hc]

theorem toClosing_eq_ok_iff (hc : isOpener c = true) {enclosed after : Text} :
    toClosing (c :: tail) = .ok (enclosed, after) ↔
      ∃ inner closer rest, enclosed = c :: inner ∧ after = closer :: rest ∧
        tail = inner ++ closer :: rest ∧ isCloser closer = true ∧ Closed inner := by
  have hOk : toClosing (c :: tail) = .ok (enclosed, after) ↔
      closingFrom? .start 0 false (c :: tail) = some (enclosed, after) := by
    rw [toClosing]
    cases closingFrom? .start 0 false (c :: tail) <;> simp
  rw [hOk, closingFrom?_opener hc, Option.map_eq_some_iff]
  constructor
  · rintro ⟨⟨inner, found⟩, hFound, hEq⟩
    obtain ⟨rfl, rfl⟩ := Prod.mk.inj hEq
    obtain ⟨closer, rest, rfl, rfl, hCloser, hEnd⟩ :=
      (closingFrom?_within State.proper_start rfl).1 hFound
    rw [endFrom_start, State.shift_eq_start] at hEnd
    exact ⟨inner, closer, rest, rfl, rfl, rfl, hCloser, hEnd⟩
  · rintro ⟨inner, closer, rest, rfl, rfl, rfl, hCloser, hClosed⟩
    refine ⟨(inner, closer :: rest), ?_, rfl⟩
    exact (closingFrom?_within State.proper_start rfl).2
      ⟨closer, rest, rfl, rfl, hCloser, hClosed.endFrom_eq 1⟩

theorem toClosing_of_closed (hc : isOpener c = true) {inner rest : Text} {closer : Char}
    (hCloser : isCloser closer = true) (hClosed : Closed inner) :
    toClosing (c :: (inner ++ closer :: rest)) = .ok (c :: inner, closer :: rest) :=
  (toClosing_eq_ok_iff hc).2 ⟨inner, closer, rest, rfl, rfl, rfl, hCloser, hClosed⟩

/-- When nothing closes the bracket, something is wrong with the text, and it is an open string or
this bracket and never a bracket too many. -/
theorem fault?_of_closingFrom?_eq_none (hc : isOpener c = true)
    (h : closingFrom? .start 0 false (c :: tail) = none) :
    (∃ quote offset, fault? (c :: tail) = some (.unterminatedString quote offset)) ∨
      ∃ depth, 1 ≤ depth ∧ fault? (c :: tail) = some (.unterminatedNesting depth 0) := by
  rw [closingFrom?_opener hc, Option.map_eq_none_iff] at h
  obtain ⟨last, hEnd, hNone⟩ := endFrom_within rfl h
  have hRead : Reads 0 c tail .start .code (State.start.within 0) := .opener hc
  have hState : endState (c :: tail) = last.within 0 := by
    rw [endState, hRead.endFrom_cons, utf8Size_of_isOpener hc]
    exact hEnd
  rw [fault?, hState]
  rcases State.fault?_within hNone 0 with hString | hNesting
  · exact .inl hString
  · exact .inr ⟨last.depth + 1, Nat.le_add_left .., hNesting⟩

theorem toClosing_of_closingFrom?_eq_none (hc : isOpener c = true)
    (h : closingFrom? .start 0 false (c :: tail) = none) :
    ∃ fault, toClosing (c :: tail) = .error fault ∧
      ((∃ quote offset, fault = .unterminatedString quote offset) ∨
        ∃ depth, 1 ≤ depth ∧ fault = .unterminatedNesting depth 0) := by
  rw [toClosing, h]
  refine ⟨_, rfl, ?_⟩
  rcases fault?_of_closingFrom?_eq_none hc h with ⟨quote, offset, hFault⟩ | ⟨depth, hDepth, hFault⟩
  · rw [hFault]
    exact .inl ⟨quote, offset, rfl⟩
  · rw [hFault]
    exact .inr ⟨depth, hDepth, rfl⟩

end Opener

theorem exists_assignments_of_closed {inner : Text} (h : Closed inner) (settings : Settings) :
    ∃ made, assignments settings inner = .ok made := by
  obtain ⟨raws, hCut⟩ := exists_cut h.fault?_eq_none
  rw [assignments, parameters, hCut.segments_eq]
  exact ⟨_, rfl⟩

/-! ## Positions in a text -/

/-- The bracket at `close` ends a list that starts behind `opening`: what stands between the two
can be cut, and does not end in a comment that would hide the bracket. -/
def Closes (text : Text) (opening close : Nat) : Prop :=
  (∃ closer, charAt? text close = some closer ∧ isCloser closer = true) ∧
    ∃ inner, slice? text (opening + 1) close = some inner ∧
      (∃ list, segments inner = .ok list) ∧ ¬ EndsInComment inner

theorem closed_iff_segments {text : Text} :
    Closed text ↔ (∃ list, segments text = .ok list) ∧ ¬ EndsInComment text := by
  rw [closed_iff]
  refine and_congr_left fun _ => ⟨fun hFault => ?_, fun ⟨list, hList⟩ => ?_⟩
  · obtain ⟨raws, hCut⟩ := exists_cut hFault
    exact ⟨_, hCut.segments_eq⟩
  · obtain ⟨raws, hCut, -⟩ := segments_eq_ok_iff.1 hList
    exact hCut.fault?_eq_none

section Opener

variable {c : Char}

theorem byteLength_behind (hc : isOpener c = true) (before inner : Text) :
    byteLength (before ++ c :: inner) = byteLength before + 1 + byteLength inner := by
  rw [byteLength_append, byteLength_cons, utf8Size_of_isOpener hc, Nat.add_assoc]

theorem splitAt?_behind (hc : isOpener c = true) (before inner after : Text) :
    splitAt? (before ++ c :: (inner ++ after)) (byteLength before + 1 + byteLength inner) =
      some (before ++ c :: inner, after) :=
  splitAt?_eq_some_iff.2 ⟨by simp, (byteLength_behind hc before inner).symm⟩

theorem closes_iff {before tail : Text} (hc : isOpener c = true) {close : Nat} :
    Closes (before ++ c :: tail) (byteLength before) close ↔
      ∃ inner closer rest, tail = inner ++ closer :: rest ∧ isCloser closer = true ∧
        Closed inner ∧ close = byteLength before + 1 + byteLength inner := by
  have hBehind : splitAt? (before ++ c :: tail) (byteLength before + 1) =
      some (before ++ [c], tail) := splitAt?_behind hc before [] tail
  constructor
  · rintro ⟨⟨closer, hChar, hCloser⟩, inner, hSlice, hInner⟩
    obtain ⟨after, rfl, rfl⟩ := (slice?_of_splitAt? hBehind).1 hSlice
    -- the character at `close` is the one behind the slice
    rw [charAt?_of_splitAt? (splitAt?_behind hc before inner after)] at hChar
    obtain ⟨rest, rfl⟩ := List.head?_eq_some_iff.1 hChar
    exact ⟨inner, closer, rest, rfl, hCloser, closed_iff_segments.2 hInner, rfl⟩
  · rintro ⟨inner, closer, rest, rfl, hCloser, hClosed, rfl⟩
    refine ⟨⟨closer, ?_, hCloser⟩, inner,
      (slice?_of_splitAt? hBehind).2 ⟨closer :: rest, rfl, rfl⟩, closed_iff_segments.1 hClosed⟩
    rw [charAt?_of_splitAt? (splitAt?_behind hc before inner (closer :: rest)), List.head?_cons]

theorem closingAt_of_opener (before tail : Text) :
    closingAt (before ++ c :: tail) (byteLength before) =
      some (match toClosing (c :: tail) with
        | .ok (enclosed, _) => .ok (byteLength before + byteLength enclosed)
        | .error fault => .error (fault.shift (byteLength before))) := by
  rw [closingAt, splitAt?_byteLength]
  rfl

theorem closingAt_eq_ok_iff {before tail : Text} (hc : isOpener c = true) {close : Nat} :
    closingAt (before ++ c :: tail) (byteLength before) = some (.ok close) ↔
      Closes (before ++ c :: tail) (byteLength before) close := by
  rw [closes_iff hc, closingAt_of_opener, Option.some.injEq]
  constructor
  · intro h
    split at h
    · rename_i enclosed after hOk
      obtain ⟨inner, closer, rest, rfl, -, rfl, hCloser, hClosed⟩ := (toClosing_eq_ok_iff hc).1 hOk
      refine ⟨inner, closer, rest, rfl, hCloser, hClosed, ?_⟩
      rw [← Except.ok.inj h, byteLength_cons, utf8Size_of_isOpener hc, Nat.add_assoc]
    · cases h
  · rintro ⟨inner, closer, rest, rfl, hCloser, hClosed, rfl⟩
    rw [toClosing_of_closed hc hCloser hClosed]
    simp only [byteLength_cons, utf8Size_of_isOpener hc, Nat.add_assoc]

theorem closingAt_eq_error {before tail : Text} (hc : isOpener c = true)
    (h : closingFrom? .start 0 false (c :: tail) = none) :
    ∃ fault, closingAt (before ++ c :: tail) (byteLength before) = some (.error fault) ∧
      ((∃ quote offset, fault = .unterminatedString quote offset) ∨
        ∃ depth, 1 ≤ depth ∧ fault = .unterminatedNesting depth (byteLength before)) := by
  obtain ⟨fault, hError, hFault⟩ := toClosing_of_closingFrom?_eq_none hc h
  rw [closingAt_of_opener, hError]
  refine ⟨_, rfl, ?_⟩
  rcases hFault with ⟨quote, offset, rfl⟩ | ⟨depth, hDepth, rfl⟩
  · exact .inl ⟨quote, _, rfl⟩
  · exact .inr ⟨depth, hDepth, by rw [SignatureFault.shift, Nat.zero_add]⟩

theorem signatureFrom_of_closes {before tail : Text} (hc : isOpener c = true) {close : Nat}
    (h : Closes (before ++ c :: tail) (byteLength before) close) :
    ∃ inner, slice? (before ++ c :: tail) (byteLength before + 1) close = some inner ∧
      signatureFrom (before ++ c :: tail) (byteLength before) = .ok inner ∧ Closed inner := by
  obtain ⟨inner, closer, rest, rfl, hCloser, hClosed, rfl⟩ := (closes_iff hc).1 h
  have hBehind := splitAt?_behind hc before [] (inner ++ closer :: rest)
  refine ⟨inner, (slice?_of_splitAt? hBehind).2 ⟨closer :: rest, rfl, rfl⟩, ?_, hClosed⟩
  rw [signatureFrom, splitAt?_byteLength]
  dsimp only
  rw [toClosing_of_closed hc hCloser hClosed]
  rfl

end Opener

/-- **A bracket closes a list exactly when the list can be cut.** From an opening bracket, the
search finds the one bracket up to which the text can be cut and does not end in a comment, and the
text that a plan takes there always gives its assignments. Without such a bracket a string is open,
or the opening bracket is: never a bracket too many, and never nothing. -/
theorem closingAt_iff_closes {text : Text} {opening : Nat} {opener : Char}
    (hChar : charAt? text opening = some opener) (hOpener : isOpener opener = true) :
    (∀ close, closingAt text opening = some (.ok close) ↔ Closes text opening close) ∧
    (∀ close other, Closes text opening close → Closes text opening other → close = other) ∧
    (∀ close, Closes text opening close →
      ∃ inner, slice? text (opening + 1) close = some inner ∧
        signatureFrom text opening = .ok inner ∧
        ∀ settings, ∃ made, assignments settings inner = .ok made) ∧
    ((∀ close, ¬ Closes text opening close) →
      ∃ fault, closingAt text opening = some (.error fault) ∧
        ((∃ quote offset, fault = .unterminatedString quote offset) ∨
          ∃ depth, 1 ≤ depth ∧ fault = .unterminatedNesting depth opening)) ∧
    (∀ before tail, splitAt? text opening = some (before, tail) →
      closingFrom? .start 0 false tail = none → fault? tail ≠ none) := by
  obtain ⟨before, tail, rfl, rfl⟩ := charAt?_eq_some_iff.1 hChar
  refine ⟨fun close => closingAt_eq_ok_iff hOpener, ?unique, ?assignments, ?error, ?fallback⟩
  case unique =>
    -- the search has one result
    intro close other hClose hOther
    have hSame := (closingAt_eq_ok_iff hOpener).2 hClose
    rw [(closingAt_eq_ok_iff hOpener).2 hOther] at hSame
    exact (Except.ok.inj (Option.some.inj hSame)).symm
  case assignments =>
    intro close hClose
    obtain ⟨inner, hSlice, hSignature, hClosed⟩ := signatureFrom_of_closes hOpener hClose
    exact ⟨inner, hSlice, hSignature, exists_assignments_of_closed hClosed⟩
  case error =>
    intro hNone
    refine closingAt_eq_error hOpener ?_
    cases hFound : closingFrom? .start 0 false (opener :: tail) with
    | none => rfl
    | some parts =>
      -- a bracket that was found is one that closes
      have hClose : closingAt (before ++ opener :: tail) (byteLength before) =
          some (.ok (byteLength before + byteLength parts.1)) := by
        rw [closingAt_of_opener, toClosing, hFound]
      exact absurd ((closingAt_eq_ok_iff hOpener).1 hClose) (hNone _)
  case fallback =>
    intro before' tail' hSplit hFound
    rw [splitAt?_byteLength, Option.some.injEq, Prod.mk.injEq] at hSplit
    obtain ⟨rfl, rfl⟩ := hSplit
    rcases fault?_of_closingFrom?_eq_none hOpener hFound with
      ⟨quote, offset, hFault⟩ | ⟨depth, -, hFault⟩ <;> simp [hFault]

/-- A bracket in a string, one in a comment and a nested pair stand before the one that closes. -/
theorem closingAt_iff_closes_nested :
    charAt? "f(a=')', # (\n b=(1)):".toList 1 = some '(' ∧
    closingAt "f(a=')', # (\n b=(1)):".toList 1 = some (.ok 19) ∧
    Closes "f(a=')', # (\n b=(1)):".toList 1 19 := by
  have hChar : charAt? "f(a=')', # (\n b=(1)):".toList 1 = some '(' := by rfl
  have hClosing : closingAt "f(a=')', # (\n b=(1)):".toList 1 = some (.ok 19) := by rfl
  exact ⟨hChar, hClosing, ((closingAt_iff_closes hChar rfl).1 19).1 hClosing⟩

end FieldFill
