import FieldFill.Proofs.Lexical.ByStretch
import FieldFill.Proofs.Lexical.Matching
import FieldFill.Proofs.Parameter.Cut

/-!
# What is wrong with a list

The fault of a text is read off the state at its end, where three things can be wrong at once. Which
of them is reported, and with which numbers, is said here without a state: by the stretches of the
text and by the pairs of its brackets.

Main definitions:

* `verdict` — an open string comes first, then the first bracket that closes nothing, then the
  leftmost of the brackets that nothing closes.
* `SignatureFault.StandsIn` — at the place that a fault names stands what it is about.

Main results:

* `charAt?_of_mem_scan` — a mark of a scan stands where it says.
* `verdict_of_list` — the fault of a text is its verdict, it names a place of the text, and a list
  with that fault is the one that cannot be cut.
-/

namespace FieldFill

/-- What is wrong with a text, by its stretches and by the pairs of its brackets. -/
def verdict (text : Text) : Option SignatureFault :=
  match openString? text with
  | some (delimiter, start) => some (.unterminatedString delimiter start)
  | none =>
    match strayClosers (scan text) with
    | stray :: _ => some (.unbalancedCloser stray.char stray.offset)
    | [] =>
      match unmatchedOpeners (scan text) with
      | leftmost :: more => some (.unterminatedNesting (more.length + 1) leftmost.offset)
      | [] => none

/-- The quote, the closing bracket or an opening bracket stands where the fault says. -/
def SignatureFault.StandsIn (text : Text) : SignatureFault → Prop
  | unterminatedString delimiter start =>
    (∃ quote, isQuote quote = true ∧ (delimiter = [quote] ∨ delimiter = [quote, quote, quote])) ∧
      slice? text start (start + byteLength delimiter) = some delimiter
  | unbalancedCloser closer offset => isCloser closer = true ∧ charAt? text offset = some closer
  | unterminatedNesting _ offset =>
    ∃ opener, isOpener opener = true ∧ charAt? text offset = some opener

section

variable {text delimiter : Text} {start : Nat}

/-! ## Which fault -/

theorem fault?_of_openString? (h : openString? text = some (delimiter, start)) :
    fault? text = some (.unterminatedString delimiter start) := by
  rw [fault?, State.fault?_eq_string_iff, mode_endState_iff]
  exact h

/-- Without an open string, the brackets decide. -/
theorem fault?_of_openString?_eq_none (h : openString? text = none) :
    fault? text =
      match (endState text).unbalanced with
      | some (closer, offset) => some (.unbalancedCloser closer offset)
      | none => (endState text).openers.getLast?.map fun outermost =>
          .unterminatedNesting (endState text).depth outermost := by
  rw [fault?, State.fault?]
  split
  · rename_i quote escaped hMode
    have hOpen : openString? text = some (quote.delimiter, quote.start) :=
      mode_endState_iff.1 ⟨quote, escaped, hMode, rfl, rfl⟩
    rw [h] at hOpen
    cases hOpen
  · rfl

theorem fault?_eq_verdict (text : Text) : fault? text = verdict text := by
  rw [verdict]
  cases hOpen : openString? text with
  | some string => exact fault?_of_openString? hOpen
  | none =>
    rw [fault?_of_openString?_eq_none hOpen, unbalanced_endState]
    cases hStray : strayClosers (scan text) with
    | cons stray more => rfl
    | nil =>
      -- the innermost bracket comes first in the state, and the leftmost one is the outermost
      have hOpeners := openers_endState text
      rw [← List.reverse_inj, List.reverse_reverse] at hOpeners
      rw [State.depth, hOpeners, List.getLast?_reverse, List.length_reverse, List.length_map]
      cases unmatchedOpeners (scan text) <;> rfl

/-! ## Where it stands -/

/-- A mark of a scan stands where it says. -/
theorem charAt?_of_mem_scan {m : Scanned} (h : m ∈ scan text) :
    charAt? text m.offset = some m.char := by
  obtain ⟨front, back, hSplit⟩ := List.append_of_mem h
  have hOffset := offset_of_scanFrom hSplit
  have hText := congrArg (List.map Scanned.char) hSplit
  rw [scan, map_char_scanFrom, List.map_append, List.map_cons] at hText
  rw [charAt?_eq_some_iff]
  exact ⟨_, _, hText, by rw [hOffset, Nat.zero_add]⟩

/-- The string that a text leaves open goes from its delimiter to the end. -/
theorem exists_of_openString? (h : openString? text = some (delimiter, start)) :
    ∃ front body, stretches text = front ++ [.unclosed delimiter body] ∧
      start = byteLength (textOf front) := by
  rcases List.eq_nil_or_concat (stretches text) with hNil | ⟨front, x, hConcat⟩
  · rw [openString?, hNil] at h
    cases h
  · rw [List.concat_eq_append] at hConcat
    obtain ⟨⟨body, rfl⟩, hStart⟩ := (openString?_concat hConcat).1 h
    exact ⟨front, body, hConcat, hStart⟩

theorem standsIn_of_openString? (h : openString? text = some (delimiter, start)) :
    (SignatureFault.unterminatedString delimiter start).StandsIn text := by
  obtain ⟨front, body, hStretches, hStart⟩ := exists_of_openString? h
  have hText : text = textOf front ++ delimiter ++ body := by
    rw [← textOf_stretches text, hStretches, textOf_concat, Stretch.text, List.append_assoc]
  have hSeparated : Separated (front ++ [.unclosed delimiter body]) :=
    hStretches ▸ separated_stretches text
  obtain ⟨-, -, quote, hQuote, hOpens⟩ := hSeparated.of_append.1
  refine ⟨⟨quote, hQuote, ?_⟩, slice?_eq_some_iff.2 ⟨_, _, hText, hStart, by rw [hStart]⟩⟩
  rcases hOpens with hTriple | ⟨hSingle, -⟩
  · exact .inr hTriple
  · exact .inl hSingle

theorem standsIn_of_fault? {fault : SignatureFault} (h : fault? text = some fault) :
    fault.StandsIn text := by
  rw [fault?_eq_verdict, verdict] at h
  cases hOpen : openString? text with
  | some string =>
    obtain rfl : .unterminatedString string.1 string.2 = fault := by simpa [hOpen] using h
    exact standsIn_of_openString? hOpen
  | none =>
    cases hStray : strayClosers (scan text) with
    | cons stray more =>
      obtain rfl : .unbalancedCloser stray.char stray.offset = fault := by
        simpa [hOpen, hStray] using h
      have hMem : stray ∈ strayClosers (scan text) := hStray ▸ List.mem_cons_self ..
      obtain ⟨hScan, hCloses⟩ := List.mem_filter.1 hMem
      simp only [Scanned.closes, Bool.and_eq_true] at hCloses
      exact ⟨hCloses.1.2, charAt?_of_mem_scan hScan⟩
    | nil =>
      cases hUnmatched : unmatchedOpeners (scan text) with
      | nil => simp [hOpen, hStray, hUnmatched] at h
      | cons leftmost more =>
        obtain rfl : .unterminatedNesting (more.length + 1) leftmost.offset = fault := by
          simpa [hOpen, hStray, hUnmatched] using h
        have hMem : leftmost ∈ unmatchedOpeners (scan text) := hUnmatched ▸ List.mem_cons_self ..
        obtain ⟨hScan, hOpens⟩ := List.mem_filter.1 hMem
        simp only [Scanned.opens, Bool.and_eq_true] at hOpens
        exact ⟨leftmost.char, hOpens.1.2, charAt?_of_mem_scan hScan⟩

end

/-- **The verdict on a list.** What is wrong with a text is an open string if there is one, else the
first bracket that closes nothing, else the leftmost of the brackets that nothing closes, with their
number. It names a place where the quote or the bracket stands, and it is what a list cannot be cut
for. -/
theorem verdict_of_list (text : Text) :
    fault? text = verdict text ∧
      (∀ fault, fault? text = some fault → fault.StandsIn text) ∧
      ∀ fault, segments text = .error fault ↔ fault? text = some fault :=
  ⟨fault?_eq_verdict text, fun _ => standsIn_of_fault?, fun _ => segments_eq_error_iff⟩

/-- Two brackets that close nothing, with brackets of other kinds that go together in between and
brackets left open behind. -/
theorem verdict_of_list_two_strays :
    fault? "(a])\x7d[\x7b".toList = some (.unbalancedCloser ')' 3) ∧
      (SignatureFault.unbalancedCloser ')' 3).StandsIn "(a])\x7d[\x7b".toList ∧
      segments "(a])\x7d[\x7b".toList = .error (.unbalancedCloser ')' 3) := by
  obtain ⟨hVerdict, hStands, hSegments⟩ := verdict_of_list "(a])\x7d[\x7b".toList
  have hFault : fault? "(a])\x7d[\x7b".toList = some (.unbalancedCloser ')' 3) := by
    rw [hVerdict]
    decide +kernel
  exact ⟨hFault, hStands _ hFault, (hSegments _).2 hFault⟩

end FieldFill
