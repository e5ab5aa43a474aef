import FieldFill.Parameter.Segment
import FieldFill.Proofs.Lexical.Flat
import FieldFill.Proofs.Text.Slice
import Mathlib.Data.List.Chain

/-!
# Cutting a list is undoing its commas

`segments` walks a scan and cuts where it meets a separating comma. `Cut` says what comes out
without a scan of the whole: a list is one piece, or a closed piece, a comma and a list.
Both directions of the law that cutting and joining undo each other follow from it.

Main results:

* `segments_eq_ok_iff` — a list is cut into segments exactly along a `Cut`.
* `Cut.join` — cuts of two lists go together across a comma, when the first list is closed.
* `segments_inverse_of_comma` — cutting is the inverse of joining at commas, faults and places
  included.
-/

namespace FieldFill

/-! ## Pieces of a scan -/

/-- A text as a piece of a list: as it stands, and without its comments. -/
def piece (raw : Text) : Text × Text :=
  (raw, uncommented raw)

theorem pieces_of_clear {marks : List Scanned} (h : ∀ m ∈ marks, m.isTop ',' = false) :
    pieces marks = ((marks.map Scanned.char, (withoutComments marks).map Scanned.char), []) := by
  induction marks with
  | nil => rfl
  | cons m rest ih =>
    have hm : m.isTop ',' = false := h m (List.mem_cons_self ..)
    rw [pieces, ih fun n hn => h n (List.mem_cons_of_mem _ hn)]
    -- a comment is kept in the raw text only
    by_cases hComment : m.region = .comment <;> simp [hm, hComment, withoutComments]

theorem pieces_append {marks rest : List Scanned} {comma : Scanned}
    (h : ∀ m ∈ marks, m.isTop ',' = false) (hComma : comma.isTop ',' = true) :
    pieces (marks ++ comma :: rest) =
      ((marks.map Scanned.char, (withoutComments marks).map Scanned.char),
        (pieces rest).1 :: (pieces rest).2) := by
  induction marks with
  | nil => simp [pieces, hComma, withoutComments]
  | cons m marks ih =>
    have hm : m.isTop ',' = false := h m (List.mem_cons_self ..)
    rw [List.cons_append, pieces, ih fun n hn => h n (List.mem_cons_of_mem _ hn)]
    by_cases hComment : m.region = .comment <;> simp [hm, hComment, withoutComments]

theorem pieces_unplaced (marks : List Scanned) :
    pieces (marks.map Scanned.unplaced) = pieces marks := by
  induction marks with
  | nil => rfl
  | cons m rest ih =>
    rw [List.map_cons, pieces, ih, isTop_unplaced, pieces]
    rfl

theorem pieces_shift (distance : Nat) (marks : List Scanned) :
    pieces (marks.map (Scanned.shift distance)) = pieces marks := by
  rw [← pieces_unplaced, map_unplaced_shift, pieces_unplaced]

theorem segments_of_fault?_eq_none {text : Text} (h : fault? text = none) :
    segments text = .ok (placed 0 ((pieces (scan text)).1 :: (pieces (scan text)).2)) := by
  rw [segments, h]

theorem fault?_of_segments {text : Text} {list : List Segment} (h : segments text = .ok list) :
    fault? text = none := by
  rw [segments] at h
  split at h
  · cases h
  · assumption

/-! ## Cuts -/

/-- `Cut text raws` says that the separating commas of a text without faults stand between
`raws`. -/
inductive Cut : Text → List Text → Prop where
  | last {text : Text} (hFault : fault? text = none) (hClear : Clear ',' text) : Cut text [text]
  | cons {first text : Text} {raws : List Text} (hClosed : Closed first) (hClear : Clear ',' first)
      (hRest : Cut text raws) : Cut (first ++ ',' :: text) (first :: raws)

theorem Closed.fault?_comma {a : Text} (h : Closed a) (b : Text) :
    fault? (a ++ ',' :: b) = (fault? b).map (SignatureFault.shift (byteLength a + 1)) := by
  have hClosed : Closed (a ++ [',']) := h.concat_plain rfl
  have hSeam : Apart (a ++ [',']) b := Apart.concat_left a b rfl
  have hFault := hClosed.fault?_append hSeam
  rw [List.append_assoc, List.singleton_append, byteLength_append] at hFault
  exact hFault

theorem Closed.endsInComment_comma {a : Text} (h : Closed a) (b : Text) :
    EndsInComment (a ++ ',' :: b) ↔ EndsInComment b := by
  have hClosed : Closed (a ++ [',']) := h.concat_plain rfl
  have hSeam : Apart (a ++ [',']) b := Apart.concat_left a b rfl
  have hEnd := hClosed.endsInComment_append hSeam
  rwa [List.append_assoc, List.singleton_append] at hEnd

namespace Cut

variable {text a b : Text} {raws as bs : List Text}

theorem fault?_eq_none (h : Cut text raws) : fault? text = none := by
  induction h with
  | last hFault hClear => exact hFault
  | cons hClosed hClear hRest ih => rw [hClosed.fault?_comma, ih, Option.map_none]

theorem ne_nil (h : Cut text raws) : raws ≠ [] := by
  cases h <;> exact List.cons_ne_nil _ _

/-- Every piece is a list of one piece. -/
theorem clear_of_mem (h : Cut text raws) {raw : Text} (hRaw : raw ∈ raws) :
    fault? raw = none ∧ Clear ',' raw := by
  induction h with
  | last hFault hClear =>
    obtain rfl : raw = _ := by simpa using hRaw
    exact ⟨hFault, hClear⟩
  | cons hClosed hClear hRest ih =>
    rcases List.mem_cons.1 hRaw with rfl | hMem
    · exact ⟨hClosed.fault?_eq_none, hClear⟩
    · exact ih hMem

theorem intercalate_eq (h : Cut text raws) : List.intercalate [','] raws = text := by
  induction h with
  | last hFault hClear => exact List.intercalate_singleton
  | cons hClosed hClear hRest ih =>
    rw [List.intercalate_cons_of_ne_nil hRest.ne_nil, ih, List.append_assoc, List.singleton_append]

theorem join (ha : Cut a as) (hComment : ¬ EndsInComment a) (hb : Cut b bs) :
    Cut (a ++ ',' :: b) (as ++ bs) := by
  induction ha with
  | last hFault hClear => exact .cons (closed_iff.2 ⟨hFault, hComment⟩) hClear hb
  | cons hClosed hClear hRest ih =>
    rw [hClosed.endsInComment_comma] at hComment
    rw [List.append_assoc, List.cons_append]
    exact .cons hClosed hClear (ih hComment)

theorem pieces_scan (h : Cut text raws) :
    (pieces (scan text)).1 :: (pieces (scan text)).2 = raws.map piece := by
  induction h with
  | @last text hFault hClear =>
    rw [pieces_of_clear hClear, scan, map_char_scanFrom]
    rfl
  | @cons first text raws hClosed hClear hRest ih =>
    rw [hClosed.scan_append_cons rfl, pieces_append hClear (by rfl), pieces_shift, ih, scan,
      map_char_scanFrom]
    rfl

theorem segments_eq (h : Cut text raws) :
    segments text = .ok (placed 0 (raws.map piece)) := by
  rw [segments_of_fault?_eq_none h.fault?_eq_none, h.pieces_scan]

end Cut

theorem Scanned.isTop_iff {c : Char} {m : Scanned} :
    m.isTop c = true ↔ m.region = .code ∧ m.depth = 0 ∧ m.char = c := by
  simp [Scanned.isTop, Scanned.isCode, and_assoc]

/-- A text without faults can be cut: in front of its first separating comma nothing is open. -/
theorem exists_cut {text : Text} (hFault : fault? text = none) : ∃ raws, Cut text raws := by
  induction hLength : text.length using Nat.strongRecOn generalizing text with
  | ind n ih =>
    cases hFind : (scan text).find? (Scanned.isTop ',') with
    | none =>
      refine ⟨[text], .last hFault fun m hm => ?_⟩
      simpa using List.find?_eq_none.1 hFind m hm
    | some comma =>
      obtain ⟨hTop, marks, rest, hScan, hMarks⟩ := List.find?_eq_some_iff_append.1 hFind
      obtain ⟨hRegion, hDepth, hChar⟩ := Scanned.isTop_iff.1 hTop
      have hPlain : isPlain comma.char = true := by
        rw [hChar]
        rfl
      -- what stands in front of the first separating comma is closed
      obtain ⟨first, more, rfl, hFirst, hClosed⟩ :=
        closed_of_top hFault hScan hPlain (by rw [hChar]; decide) hRegion hDepth
      rw [hChar] at hFault hLength ⊢
      have hMore : fault? more = none := by
        rw [hClosed.fault?_comma] at hFault
        exact Option.map_eq_none_iff.1 hFault
      have hShorter : more.length < n := by
        rw [← hLength, List.length_append, List.length_cons]
        omega
      obtain ⟨raws, hCut⟩ := ih more.length hShorter hMore rfl
      refine ⟨first :: raws, .cons hClosed (fun m hm => ?_) hCut⟩
      simpa using hMarks m (hFirst ▸ hm)

/-- **Segments are cuts.** -/
theorem segments_eq_ok_iff {text : Text} {list : List Segment} :
    segments text = .ok list ↔ ∃ raws, Cut text raws ∧ list = placed 0 (raws.map piece) := by
  constructor
  · intro h
    obtain ⟨raws, hCut⟩ := exists_cut (fault?_of_segments h)
    refine ⟨raws, hCut, ?_⟩
    rw [hCut.segments_eq] at h
    exact (Except.ok.inj h).symm
  · rintro ⟨raws, hCut, rfl⟩
    exact hCut.segments_eq

theorem segments_eq_error_iff {text : Text} {fault : SignatureFault} :
    segments text = .error fault ↔ fault? text = some fault := by
  rw [segments]
  cases fault? text <;> simp

/-! ## Places -/

def Segment.shift (distance : Nat) (s : Segment) : Segment :=
  { s with start := s.start + distance }

theorem placed_add (start distance : Nat) (ps : List (Text × Text)) :
    placed (start + distance) ps = (placed start ps).map (Segment.shift distance) := by
  induction ps generalizing start with
  | nil => rfl
  | cons p ps ih =>
    have hStart : start + distance + byteLength p.1 + 1 =
        start + byteLength p.1 + 1 + distance := by
      omega
    rw [placed, placed, hStart, ih]
    rfl

theorem map_raw_placed (start : Nat) (raws : List Text) :
    (placed start (raws.map piece)).map Segment.raw = raws := by
  induction raws generalizing start with
  | nil => rfl
  | cons raw raws ih => rw [List.map_cons, piece, placed, List.map_cons, ih]

theorem Cut.placed_append {text : Text} {raws : List Text} (h : Cut text raws) (start : Nat)
    (ps : List (Text × Text)) :
    placed start (raws.map piece ++ ps) =
      placed start (raws.map piece) ++ placed (start + byteLength text + 1) ps := by
  induction h generalizing start with
  | last hFault hClear => rfl
  | @cons first text raws hClosed hClear hRest ih =>
    -- the comma is one byte
    have hStart : start + byteLength first + 1 + byteLength text + 1 =
        start + byteLength (first ++ ',' :: text) + 1 := by
      rw [byteLength_append, byteLength_cons, show ','.utf8Size = 1 from rfl]
      omega
    rw [List.map_cons, List.cons_append, piece, placed, ih, hStart]
    rfl

/-- The segments of a list stand in it one after the other, with one comma between two of them. -/
structure Tiles (text : Text) (list : List Segment) : Prop where
  first : list.head?.map Segment.start = some 0
  next : list.IsChain fun s t => t.start = s.stop + 1
  last : list.getLast?.map Segment.stop = some (byteLength text)
  raw : ∀ s ∈ list, slice? text s.start s.stop = some s.raw
  joined : List.intercalate [','] (list.map Segment.raw) = text

theorem isChain_placed (start : Nat) (ps : List (Text × Text)) :
    (placed start ps).IsChain fun s t => t.start = s.stop + 1 := by
  induction ps generalizing start with
  | nil => exact .nil
  | cons p ps ih =>
    cases ps with
    | nil => exact .singleton _
    | cons q ps => exact .cons_cons rfl (ih _)

theorem Cut.last_stop {text : Text} {raws : List Text} (h : Cut text raws) (start : Nat) :
    (placed start (raws.map piece)).getLast?.map Segment.stop = some (start + byteLength text) := by
  induction h generalizing start with
  | last hFault hClear => rfl
  | @cons first text raws hClosed hClear hRest ih =>
    obtain ⟨raw, more, rfl⟩ := List.exists_cons_of_ne_nil hRest.ne_nil
    have hStop := ih (start + byteLength first + 1)
    rw [List.map_cons, piece, placed] at hStop
    rw [List.map_cons, List.map_cons, piece, piece, placed, placed, List.getLast?_cons_cons, hStop,
      byteLength_append, byteLength_cons, show ','.utf8Size = 1 from rfl]
    congr 1
    omega

theorem Cut.part_of_mem {text : Text} {raws : List Text} (h : Cut text raws) {start : Nat}
    {s : Segment} (hs : s ∈ placed start (raws.map piece)) :
    ∃ before after, text = before ++ s.raw ++ after ∧ s.start = start + byteLength before := by
  induction h generalizing start with
  | @last text hFault hClear =>
    obtain rfl : s = ⟨start, text, uncommented text⟩ := by simpa [piece, placed] using hs
    exact ⟨[], [], by simp, rfl⟩
  | @cons first text raws hClosed hClear hRest ih =>
    rw [List.map_cons, piece, placed] at hs
    rcases List.mem_cons.1 hs with rfl | hMem
    · exact ⟨[], ',' :: text, rfl, rfl⟩
    · -- the first piece and its comma stand in front of it, too
      obtain ⟨before, after, rfl, hStart⟩ := ih hMem
      refine ⟨first ++ ',' :: before, after, by simp, ?_⟩
      rw [hStart, byteLength_append, byteLength_cons, show ','.utf8Size = 1 from rfl]
      omega

theorem Cut.tiles {text : Text} {raws : List Text} (h : Cut text raws) :
    Tiles text (placed 0 (raws.map piece)) where
  first := by
    obtain ⟨raw, more, rfl⟩ := List.exists_cons_of_ne_nil h.ne_nil
    rfl
  next := isChain_placed 0 _
  last := by rw [h.last_stop, Nat.zero_add]
  raw s hs := by
    obtain ⟨before, after, hText, hStart⟩ := h.part_of_mem hs
    rw [Nat.zero_add] at hStart
    exact slice?_eq_some_iff.2 ⟨before, after, hText, hStart, by rw [Segment.stop, hStart]⟩
  joined := by rw [map_raw_placed, h.intercalate_eq]

theorem exists_of_mem_placed {start : Nat} {raws : List Text} {s : Segment}
    (hs : s ∈ placed start (raws.map piece)) :
    ∃ raw ∈ raws, s.raw = raw ∧ s.kept = uncommented raw := by
  induction raws generalizing start with
  | nil => cases hs
  | cons raw raws ih =>
    rw [List.map_cons, piece, placed] at hs
    rcases List.mem_cons.1 hs with rfl | hMem
    · exact ⟨raw, List.mem_cons_self .., rfl, rfl⟩
    · obtain ⟨other, hOther, hRaw⟩ := ih hMem
      exact ⟨other, List.mem_cons_of_mem _ hOther, hRaw⟩

/-! ## The inverse of joining -/

theorem segments_comma {a b : Text} {as bs : List Segment} (ha : segments a = .ok as)
    (hComment : ¬ EndsInComment a) (hb : segments b = .ok bs) :
    segments (a ++ ',' :: b) = .ok (as ++ bs.map (Segment.shift (byteLength a + 1))) := by
  obtain ⟨rawsA, hCutA, rfl⟩ := segments_eq_ok_iff.1 ha
  obtain ⟨rawsB, hCutB, rfl⟩ := segments_eq_ok_iff.1 hb
  rw [(hCutA.join hComment hCutB).segments_eq, List.map_append, hCutA.placed_append, ← placed_add,
    Nat.add_assoc]

theorem segments_comma_error {a b : Text} {as : List Segment} {fault : SignatureFault}
    (ha : segments a = .ok as) (hComment : ¬ EndsInComment a) (hb : segments b = .error fault) :
    segments (a ++ ',' :: b) = .error (fault.shift (byteLength a + 1)) := by
  obtain ⟨raws, hCut, -⟩ := segments_eq_ok_iff.1 ha
  have hClosed : Closed a := closed_iff.2 ⟨hCut.fault?_eq_none, hComment⟩
  have hFault := segments_eq_error_iff.1 hb
  rw [segments_eq_error_iff, hClosed.fault?_comma, hFault, Option.map_some]

theorem segments_raw {text : Text} {list : List Segment} (h : segments text = .ok list)
    {s : Segment} (hs : s ∈ list) : segments s.raw = .ok [⟨0, s.raw, s.kept⟩] := by
  obtain ⟨raws, hCut, rfl⟩ := segments_eq_ok_iff.1 h
  obtain ⟨raw, hRaw, hEq, hKept⟩ := exists_of_mem_placed hs
  obtain ⟨hFault, hClear⟩ := hCut.clear_of_mem hRaw
  rw [hEq, hKept, (Cut.last hFault hClear).segments_eq]
  rfl

/-- **Cutting is the inverse of joining at commas.** Behind a list that ends outside of a comment, a
comma and another list add the segments, or the fault, of that list, moved to where they stand. And
the segments of a list tile it, each being the one segment of its own text. -/
theorem segments_inverse_of_comma :
    (∀ (a b : Text) (as : List Segment), segments a = .ok as → ¬ EndsInComment a →
      (∀ bs, segments b = .ok bs →
        segments (a ++ ',' :: b) = .ok (as ++ bs.map (Segment.shift (byteLength a + 1)))) ∧
      (∀ fault, segments b = .error fault →
        segments (a ++ ',' :: b) = .error (fault.shift (byteLength a + 1)))) ∧
    (∀ (text : Text) (list : List Segment), segments text = .ok list →
      Tiles text list ∧
      ∀ s ∈ list, ∃ alone, segments s.raw = .ok [alone] ∧ alone.code = s.code) := by
  refine ⟨fun a b as ha hComment => ⟨fun bs hb => ?_, fun fault hb => ?_⟩, fun text list h => ?_⟩
  · exact segments_comma ha hComment hb
  · exact segments_comma_error ha hComment hb
  · obtain ⟨raws, hCut, rfl⟩ := segments_eq_ok_iff.1 h
    refine ⟨hCut.tiles, fun s hs => ?_⟩
    exact ⟨⟨0, s.raw, s.kept⟩, segments_raw h hs, rfl⟩

/-- A string with a comma and a bracket in front of the joint, and an open string behind it. -/
theorem segments_inverse_of_comma_open_string :
    segments "a=',)'".toList = .ok [⟨0, "a=',)'".toList, "a=',)'".toList⟩] ∧
    ¬ EndsInComment "a=',)'".toList ∧
    segments "a=',)',b='".toList = .error (.unterminatedString ['\''] 9) ∧
    segments "a=',)',b".toList =
      .ok [⟨0, "a=',)'".toList, "a=',)'".toList⟩, ⟨7, "b".toList, "b".toList⟩] ∧
    Tiles "a=',)'".toList [⟨0, "a=',)'".toList, "a=',)'".toList⟩] := by
  have ha : segments "a=',)'".toList = .ok [⟨0, "a=',)'".toList, "a=',)'".toList⟩] := by rfl
  have hComment : ¬ EndsInComment "a=',)'".toList := by decide
  obtain ⟨hOk, hError⟩ := segments_inverse_of_comma.1 _ "b='".toList _ ha hComment
  refine ⟨ha, hComment, hError (.unterminatedString ['\''] 2) rfl, ?_,
    (segments_inverse_of_comma.2 _ _ ha).1⟩
  exact (segments_inverse_of_comma.1 _ "b".toList _ ha hComment).1 [⟨0, ['b'], ['b']⟩] rfl

end FieldFill
