import FieldFill.Proofs.Lexical.ByStretch
import FieldFill.Proofs.Lexical.Returns

/-!
# Other contents for a string

A string can be given other contents without anything around it being read in another way, when they
have neither its quote nor a backslash and are not empty: with its quote the string could end earlier,
a backslash could escape its end, and two quotes with nothing in between could be the start of three.
Whatever else stands in the contents, all of it is read as a string, at the depth of the string.

Main definitions:

* `Fills` — contents that do not touch the delimiters of a string.
* `literalMarks` — the marks of a text that belongs to a string, without their places.

Main results:

* `Separated.refill` — the stretches of a text stay separated when a string is filled anew.
* `scan_textOf_literal` — the scan of a text around one of its strings.
* `fault?_refill` — a text with new contents is as free of faults.
-/

namespace FieldFill

/-- Contents that a string with this delimiter can be filled with. -/
def Fills (delimiter contents : Text) : Prop :=
  contents ≠ [] ∧ ∀ c ∈ contents, c ∉ delimiter ∧ c ≠ '\\'

instance (delimiter contents : Text) : Decidable (Fills delimiter contents) :=
  decidable_of_iff (contents ≠ [] ∧ contents.all (fun c => c ∉ delimiter ∧ c ≠ '\\') = true)
    (by simp [Fills])

section

variable {delimiter body contents : Text} {front back : List Stretch}

/-! ## The string -/

theorem escapesNext_of_free {part : Text} (h : ∀ c ∈ part, c ≠ '\\') :
    escapesNext part = false := by
  rcases List.eq_nil_or_concat part with rfl | ⟨init, last, hConcat⟩
  · rfl
  · rw [List.concat_eq_append] at hConcat
    subst hConcat
    have hLast : last ≠ '\\' := h last (by simp)
    rw [escapesNext_concat, decide_eq_false hLast, Bool.and_false]

theorem Fills.isBody (h : Fills delimiter contents) (hDelimiter : delimiter ≠ []) :
    IsBody delimiter contents := by
  refine ⟨escapesNext_of_free fun c hc => (h.2 c hc).2, fun n hn => ?_⟩
  rw [Bool.eq_false_iff]
  intro hEnd
  obtain ⟨-, hPrefix⟩ := endsAt_iff.1 hEnd
  obtain ⟨quote, more, rfl⟩ := List.exists_cons_of_ne_nil hDelimiter
  rw [List.drop_append_of_le_length (Nat.le_of_lt hn), List.drop_eq_getElem_cons hn,
    List.cons_append, List.cons_prefix_cons] at hPrefix
  -- the character that stands there is none of the delimiter
  refine (h.2 _ (List.getElem_mem hn)).1 ?_
  rw [← hPrefix.1]
  exact List.mem_cons_self ..

theorem Fills.opensWith (h : Fills delimiter contents) {quote : Char} {inside rest : Text}
    (hOpens : OpensWith quote delimiter inside) :
    OpensWith quote delimiter (contents ++ rest) := by
  rcases hOpens with rfl | ⟨rfl, -⟩
  · exact .inl rfl
  · refine .inr ⟨rfl, fun hPair => ?_⟩
    obtain ⟨c, more, rfl⟩ := List.exists_cons_of_ne_nil h.1
    rw [List.cons_append, List.cons_prefix_cons] at hPair
    refine (h.2 c (List.mem_cons_self ..)).1 ?_
    rw [← hPair.1]
    exact List.mem_cons_self ..

theorem Fills.whole (h : Fills delimiter contents) {rest : Text}
    (hWhole : (Stretch.literal delimiter body).Whole rest) :
    (Stretch.literal delimiter contents).Whole rest := by
  obtain ⟨-, quote, hQuote, hOpens⟩ := hWhole
  exact ⟨h.isBody hOpens.ne_nil, quote, hQuote, h.opensWith hOpens⟩

/-! ## Its surroundings -/

theorem head?_textOf_literal (hDelimiter : delimiter ≠ []) :
    (textOf (front ++ .literal delimiter body :: back)).head? =
      (textOf front ++ delimiter).head? := by
  obtain ⟨c, more, rfl⟩ := List.exists_cons_of_ne_nil hDelimiter
  simp [textOf_append, textOf_cons, Stretch.text, List.head?_append]

/-- **The stretches around a string stay what they are.** -/
theorem Separated.refill (h : Separated (front ++ .literal delimiter body :: back))
    (hFills : Fills delimiter contents) :
    Separated (front ++ .literal delimiter contents :: back) := by
  induction front with
  | nil => exact ⟨hFills.whole h.1, h.2⟩
  | cons x front ih =>
    obtain ⟨hWhole, hTail⟩ : x.Whole (textOf (front ++ .literal delimiter body :: back)) ∧
      Separated (front ++ .literal delimiter body :: back) := h
    obtain ⟨-, quote, -, hOpens⟩ := hTail.of_append.1
    -- of the text behind a stretch only the first character matters
    have hHead : (textOf (front ++ .literal delimiter contents :: back)).head? =
        (textOf (front ++ .literal delimiter body :: back)).head? := by
      rw [head?_textOf_literal hOpens.ne_nil, head?_textOf_literal hOpens.ne_nil]
    exact ⟨hWhole.congr hHead, ih hTail⟩

/-! ## The scan -/

/-- The marks of a text that belongs to a string, without their places. -/
def literalMarks (depth : Nat) (text : Text) : List Scanned :=
  text.map fun c => ⟨0, c, .literal, depth, depth⟩

theorem map_char_literalMarks (depth : Nat) (text : Text) :
    (literalMarks depth text).map Scanned.char = text := by
  rw [literalMarks, List.map_map]
  exact List.map_id _

theorem map_unplaced_evenMarks (depth offset : Nat) (text : Text) :
    (evenMarks .literal depth depth offset text).map Scanned.unplaced =
      literalMarks depth text := by
  induction text generalizing offset with
  | nil => rfl
  | cons c rest ih =>
    rw [evenMarks, List.map_cons, ih]
    rfl

/-- **The scan of a text around one of its strings.** Neither what stands in front of the string nor
what stands behind it depends on what the string holds. -/
theorem scan_textOf_literal (h : Separated (front ++ .literal delimiter body :: back)) :
    (scan (textOf (front ++ .literal delimiter body :: back))).map Scanned.unplaced =
        (marksAlong .start 0 front).map Scanned.unplaced ++
          (literalMarks (endAlong .start 0 front).depth (Stretch.literal delimiter body).text ++
            (scanFrom (endAlong .start 0 front) 0 (textOf back)).map Scanned.unplaced) ∧
      (endState (textOf (front ++ .literal delimiter body :: back))).unplaced =
        (endFrom (endAlong .start 0 front) 0 (textOf back)).unplaced := by
  obtain ⟨⟨hScan, hEnd⟩, hBegins⟩ := scanFrom_textOf h (State.beginsStretch_start _) 0
  have hWhole := h.of_append.1
  have hBegins := hBegins.resolve_right (List.cons_ne_nil _ _)
  rw [textOf_cons] at hScan hEnd hBegins
  obtain ⟨⟨hString, hStringEnd⟩, -⟩ := hWhole.scanFrom_eq hBegins (0 + byteLength (textOf front))
  rw [hString] at hScan
  rw [hStringEnd] at hEnd
  constructor
  · rw [scan, hScan, List.map_append, List.map_append, Stretch.marks, Stretch.next, Nat.min_self,
      Stretch.region, map_unplaced_evenMarks, scanFrom_alike rfl 0]
  · rw [endState, hEnd, Stretch.next, endFrom_alike rfl 0]

theorem fault?_refill (h : Separated (front ++ .literal delimiter body :: back))
    (hFills : Fills delimiter contents) :
    fault? (textOf (front ++ .literal delimiter contents :: back)) = none ↔
      fault? (textOf (front ++ .literal delimiter body :: back)) = none := by
  have hEnd : (endState (textOf (front ++ .literal delimiter contents :: back))).unplaced =
      (endState (textOf (front ++ .literal delimiter body :: back))).unplaced := by
    rw [(scan_textOf_literal (h.refill hFills)).2, (scan_textOf_literal h).2]
  rw [fault?, fault?, ← Option.map_eq_none_iff (f := SignatureFault.unplaced),
    State.fault?_of_unplaced hEnd, Option.map_eq_none_iff]

end

end FieldFill
