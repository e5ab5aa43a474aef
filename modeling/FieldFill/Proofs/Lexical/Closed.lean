import FieldFill.Proofs.Lexical.Reads

/-!
# Closed texts

A text is closed when its scan comes back to where it started: no string, comment or bracket is
open, and no bracket closed nothing. What follows a closed text is scanned as on its own.

Main results:

* `closed_iff` — a text is closed when nothing is wrong with it and no comment runs to its end.
* `Closed.append`, `Closed.scan_append`, `Closed.fault?_append` — scans and faults behind a closed
  text.
* `closed_of_plain` — a text of plain characters is closed, and all of it is code outside brackets.
-/

namespace FieldFill

def Closed (text : Text) : Prop :=
  endState text = .start

/-- The scan of a text ends inside a comment. -/
def EndsInComment (text : Text) : Prop :=
  (endState text).mode = .comment

/-- A text has a character nowhere in code outside of all brackets. -/
def Clear (c : Char) (text : Text) : Prop :=
  ∀ m ∈ scan text, m.isTop c = false

instance (text : Text) : Decidable (Closed text) :=
  inferInstanceAs (Decidable (endState text = .start))

instance (text : Text) : Decidable (EndsInComment text) :=
  inferInstanceAs (Decidable ((endState text).mode = .comment))

instance (c : Char) (text : Text) : Decidable (Clear c text) :=
  inferInstanceAs (Decidable (∀ m ∈ scan text, m.isTop c = false))

theorem State.fault?_eq_none_iff {s : State} :
    s.fault? = none ↔
      (∀ quote escaped, s.mode ≠ .literal quote escaped) ∧
        s.unbalanced = none ∧ s.openers = [] := by
  obtain ⟨mode, skip, openers, unbalanced⟩ := s
  cases mode with
  | literal quote escaped => simp [State.fault?]
  | code | comment =>
    -- a comment may run to the end
    cases unbalanced <;> simp [State.fault?]

theorem closed_iff {text : Text} : Closed text ↔ fault? text = none ∧ ¬ EndsInComment text := by
  constructor
  · intro h
    have hState : endState text = .start := h
    refine ⟨?_, ?_⟩
    · rw [fault?, hState]
      rfl
    · rw [EndsInComment, hState]
      decide
  · rintro ⟨hFault, hComment⟩
    obtain ⟨hLiteral, hUnbalanced, hOpeners⟩ := State.fault?_eq_none_iff.1 hFault
    -- no fault leaves the mode, the brackets and the skip to be the ones of the start
    have hSkip : (endState text).skip = 0 := endFrom_skip 0 (Nat.zero_le _)
    have hMode : (endState text).mode = .code := by
      cases h : (endState text).mode with
      | code => rfl
      | comment => exact absurd h hComment
      | literal quote escaped => exact absurd h (hLiteral quote escaped)
    show endState text = ⟨.code, 0, [], none⟩
    rw [← hMode, ← hSkip, ← hOpeners, ← hUnbalanced]

theorem closed_nil : Closed [] := rfl

/-- What is in front of a seam is as clear as the whole. -/
theorem Clear.of_append {c : Char} {a b : Text} (h : Clear c (a ++ b)) (hSeam : Apart a b) :
    Clear c a := by
  intro m hm
  refine h m ?_
  rw [scan_append hSeam]
  exact List.mem_append_left _ hm

namespace Closed

variable {a b : Text}

theorem fault?_eq_none (h : Closed a) : fault? a = none :=
  (closed_iff.1 h).1

theorem endFrom_eq (h : Closed a) (offset : Nat) : endFrom .start offset a = .start := by
  rw [endFrom_start, show endState a = .start from h, State.shift_start]

theorem endState_append (h : Closed a) (hSeam : Apart a b) :
    endState (a ++ b) = (endState b).shift (byteLength a) := by
  rw [FieldFill.endState_append hSeam, show endState a = .start from h, endFrom_start]

theorem scan_append (h : Closed a) (hSeam : Apart a b) :
    scan (a ++ b) = scan a ++ (scan b).map (Scanned.shift (byteLength a)) := by
  rw [FieldFill.scan_append hSeam, show endState a = .start from h, scanFrom_start]

theorem fault?_append (h : Closed a) (hSeam : Apart a b) :
    fault? (a ++ b) = (fault? b).map (SignatureFault.shift (byteLength a)) := by
  rw [fault?, h.endState_append hSeam, State.fault?_shift, fault?]

theorem endsInComment_append (h : Closed a) (hSeam : Apart a b) :
    EndsInComment (a ++ b) ↔ EndsInComment b := by
  rw [EndsInComment, h.endState_append hSeam, EndsInComment]
  cases hMode : (endState b).mode <;> simp [State.shift, Mode.shift, hMode]

theorem append (h : Closed a) (hSeam : Apart a b) (hb : Closed b) : Closed (a ++ b) := by
  rw [Closed, h.endState_append hSeam, show endState b = .start from hb, State.shift_start]

theorem clear_append {c : Char} (h : Closed a) (hSeam : Apart a b) :
    Clear c (a ++ b) ↔ Clear c a ∧ Clear c b := by
  rw [Clear, h.scan_append hSeam, List.forall_mem_append, List.forall_mem_map]
  rfl

end Closed

/-! ## Plain texts -/

theorem scan_plain {c : Char} (hc : isPlain c = true) : scan [c] = [⟨0, c, .code, 0, 0⟩] := by
  rw [scan, State.start, (Reads.plain hc).scanFrom_cons]
  rfl

theorem closed_plain {c : Char} (hc : isPlain c = true) : Closed [c] := by
  rw [Closed, endState, State.start, (Reads.plain hc).endFrom_cons]
  rfl

/-- What a plain character is in front of is scanned as on its own. -/
theorem scan_plain_cons {c : Char} (hc : isPlain c = true) (rest : Text) :
    scan (c :: rest) = ⟨0, c, .code, 0, 0⟩ :: (scan rest).map (Scanned.shift (byteLength [c])) := by
  have hSeam : Apart [c] rest := Apart.concat_left [] rest (not_isQuote_of_isPlain hc)
  have h := (closed_plain hc).scan_append hSeam
  rwa [scan_plain hc] at h

theorem closed_of_plain {text : Text} (h : ∀ c ∈ text, isPlain c = true) : Closed text := by
  induction text with
  | nil => exact closed_nil
  | cons c rest ih =>
    have hc := h c (List.mem_cons_self ..)
    have hSeam : Apart [c] rest := Apart.concat_left [] rest (not_isQuote_of_isPlain hc)
    exact (closed_plain hc).append hSeam (ih fun d hd => h d (List.mem_cons_of_mem _ hd))

theorem Closed.concat_plain {a : Text} (h : Closed a) {c : Char} (hc : isPlain c = true) :
    Closed (a ++ [c]) :=
  h.append (Apart.cons_right a [] (not_isQuote_of_isPlain hc)) (closed_plain hc)

/-- A plain character behind a closed text is code outside of all brackets. -/
theorem Closed.scan_append_cons {a : Text} (h : Closed a) {c : Char} (hc : isPlain c = true)
    (b : Text) :
    scan (a ++ c :: b) =
      scan a ++ ⟨byteLength a, c, .code, 0, 0⟩ ::
        (scan b).map (Scanned.shift (byteLength a + c.utf8Size)) := by
  have hSeam : Apart a (c :: b) := Apart.cons_right a b (not_isQuote_of_isPlain hc)
  rw [h.scan_append hSeam, scan_plain_cons hc, List.map_cons, List.map_map]
  congr 2
  · simp [Scanned.shift]
  · refine List.map_congr_left fun m _ => ?_
    simp only [Function.comp_apply, Scanned.shift, byteLength, Nat.add_zero]
    rw [Nat.add_assoc, Nat.add_comm (byteLength a)]

theorem apart_of_plain {text : Text} (h : ∀ c ∈ text, isPlain c = true) (rest : Text) :
    Apart text rest := by
  intro c hc hLast
  have hPlain := h c (List.mem_of_getLast? hLast)
  simp [not_isQuote_of_isPlain hPlain] at hc

/-! ## Going back from a scan -/

theorem length_scan (text : Text) : (scan text).length = text.length := by
  have h := congrArg List.length (map_char_scanFrom .start 0 text)
  rwa [List.length_map] at h

/-- A character of a scan that is no quote does not show in the scan of what stands before it. -/
theorem exists_of_scan_eq {text : Text} {marks rest : List Scanned} {m : Scanned}
    (h : scan text = marks ++ m :: rest) (hm : isQuote m.char = false) :
    ∃ before after next, text = before ++ m.char :: after ∧ scan before = marks ∧
      Reads (byteLength before) m.char after (endState before) m.region next ∧
      m.depth = min (endState before).depth next.depth := by
  obtain ⟨before, hBefore⟩ : ∃ before, before = marks.map Scanned.char := ⟨_, rfl⟩
  obtain ⟨after, hAfter⟩ : ∃ after, after = rest.map Scanned.char := ⟨_, rfl⟩
  have hText : text = before ++ m.char :: after := by
    rw [← map_char_scanFrom .start 0 text, show scanFrom .start 0 text = scan text from rfl, h,
      List.map_append, List.map_cons, hBefore, hAfter]
  have hSeam : Apart before (m.char :: after) := Apart.cons_right before after hm
  have hRead := reads_step (endState before) (byteLength before) m.char after
  -- the scan goes on from where the scan of the text in front ends
  have hScan : scan before ++ scanFrom (endState before) (byteLength before) (m.char :: after) =
      marks ++ m :: rest := by
    rw [← h, hText, scan_append hSeam]
  have hLength : (scan before).length = marks.length := by
    rw [length_scan, hBefore, List.length_map]
  obtain ⟨hMarks, hCons⟩ := List.append_inj hScan hLength
  rw [hRead.scanFrom_cons, List.cons.injEq] at hCons
  have hRegion := congrArg Scanned.region hCons.1
  have hDepth := congrArg Scanned.depth hCons.1
  refine ⟨before, after, _, hText, hMarks, ?_, hDepth.symm⟩
  -- the mark keeps the region of the rule
  rw [← hRegion]
  exact hRead

/-- A plain character in code outside of all brackets is read in a state with nothing open. -/
theorem Reads.state_of_top {offset : Nat} {c : Char} {rest : Text} {s next : State}
    (h : Reads offset c rest s .code next) (hPlain : isPlain c = true) (hc : c ≠ '\n')
    (hDepth : min s.depth next.depth = 0) : s = ⟨.code, 0, [], s.unbalanced⟩ := by
  obtain ⟨-, hQuote, hOpener, hCloser⟩ := isPlain_iff.1 hPlain
  cases h with
  | newline hNewline => exact absurd hNewline hc
  | opener h => simp [h] at hOpener
  | closer inner outer h => simp [h] at hCloser
  | stray h => simp [h] at hCloser
  | @plain openers unbalanced _ =>
    -- a plain character changes no depth
    rw [Nat.min_self] at hDepth
    have hNil : openers = [] := List.eq_nil_of_length_eq_zero hDepth
    rw [hNil]

/-- In a text without faults, the text in front of such a character is closed. -/
theorem closed_of_top {text : Text} {marks rest : List Scanned} {m : Scanned}
    (hFault : fault? text = none) (h : scan text = marks ++ m :: rest)
    (hPlain : isPlain m.char = true) (hc : m.char ≠ '\n') (hRegion : m.region = .code)
    (hDepth : m.depth = 0) :
    ∃ before after, text = before ++ m.char :: after ∧ scan before = marks ∧ Closed before := by
  have hQuote := not_isQuote_of_isPlain hPlain
  obtain ⟨before, after, next, hText, hMarks, hRead, hMin⟩ := exists_of_scan_eq h hQuote
  rw [hRegion] at hRead
  have hState := hRead.state_of_top hPlain hc (hMin ▸ hDepth)
  refine ⟨before, after, hText, hMarks, ?_⟩
  -- a bracket that closed nothing in front would still be known at the end
  have hEnd : (endState text).unbalanced = none := (State.fault?_eq_none_iff.1 hFault).2.1
  rw [hText, endState_append (Apart.cons_right before after hQuote)] at hEnd
  have hNone : (endState before).unbalanced = none := unbalanced_of_endFrom hEnd
  rw [Closed, hState, hNone]
  rfl

end FieldFill
