import FieldFill.Proofs.Parameter.Classify
import FieldFill.Proofs.Parameter.Cut

/-!
# Comments and line breaks carry no meaning

A parameter list says the same on one line and without its comments. The flat list is cut at the
same commas, since its scan has the marks of the list (`scan_flat`); and what its segments declare
is the same, since their code differs only in spaces that were line breaks, which the classifier
and its second scan take for each other.

Main results:

* `pieces_flatMarks` — piece by piece, the flat list has the code of the list up to `Spaced`.
* `ofSegment?_spaced` — such pieces declare the same parameter.
* `flat_keeps_parameters` — the list and the flat list together.
-/

namespace FieldFill

/-! ## Cutting -/

/-- Two pieces whose code differs in line breaks that became spaces. -/
def SpacedPiece (p q : Text × Text) : Prop :=
  List.Forall₂ Spaced p.2 q.2

/-- Two segments whose code differs in line breaks that became spaces. -/
def SpacedSegment (s t : Segment) : Prop :=
  List.Forall₂ Spaced s.kept t.kept

theorem isTop_withBreak {nl c : Char} (hnl : nl ≠ c) (hBreak : '\n' ≠ c) (m : Scanned) :
    (m.withBreak nl).isTop c = m.isTop c := by
  rw [Scanned.withBreak]
  split
  · rename_i h
    simp [Scanned.isTop, Scanned.isCode, h.2, hnl, hBreak]
  · rfl

theorem spaced_withBreak (m : Scanned) : Spaced m.char (m.withBreak ' ').char := by
  rw [Scanned.char_withBreak]
  split
  · rename_i h
    exact .inr ⟨h.2, rfl⟩
  · exact .inl rfl

/-- Cutting the marks of the flat text gives as many pieces, with the same code but for spaces. -/
theorem pieces_flatMarks (marks : List Scanned) :
    SpacedPiece (pieces marks).1 (pieces (flatMarks ' ' marks)).1 ∧
      List.Forall₂ SpacedPiece (pieces marks).2 (pieces (flatMarks ' ' marks)).2 := by
  induction marks with
  | nil => exact ⟨.nil, .nil⟩
  | cons m marks ih =>
    by_cases hComment : m.region = .comment
    · -- a comment adds nothing to the code of its piece, and is gone in the flat text
      have hTop : m.isTop ',' = false := by simp [Scanned.isTop, Scanned.isCode, hComment]
      have hDrop : flatMarks ' ' (m :: marks) = flatMarks ' ' marks := by
        simp [flatMarks, withoutComments, hComment]
      rw [hDrop, pieces]
      simpa [hTop, hComment, SpacedPiece] using ih
    · have hKept : (m.withBreak ' ').region ≠ .comment := by
        rwa [Scanned.region_withBreak]
      rw [flatMarks_cons ' ' marks hComment, pieces, pieces,
        isTop_withBreak (by decide) (by decide)]
      -- a separating comma starts a new piece on both sides
      by_cases hTop : m.isTop ',' = true
      · simp only [hTop, if_true]
        exact ⟨.nil, .cons ih.1 ih.2⟩
      · simp only [hTop, hComment, hKept, if_false, Bool.false_eq_true]
        exact ⟨.cons (spaced_withBreak m) ih.1, ih.2⟩

/-! ## Classifying -/

section Spaced

variable {x y : Text}

theorem dropWhile_spaced {p : Char → Bool} (hp : p ' ' = p '\n') (h : List.Forall₂ Spaced x y) :
    List.Forall₂ Spaced (x.dropWhile p) (y.dropWhile p) := by
  induction h with
  | nil => exact .nil
  | @cons c d x y hChar hRest ih =>
    have hSame := hChar.congr hp
    cases hc : p c with
    | true =>
      rw [List.dropWhile_cons_of_pos hc, List.dropWhile_cons_of_pos (hSame.trans hc)]
      exact ih
    | false =>
      rw [List.dropWhile_cons_of_neg (by simp [hc]),
        List.dropWhile_cons_of_neg (by simp [hSame, hc])]
      exact .cons hChar hRest

theorem trim_spaced (h : List.Forall₂ Spaced x y) : List.Forall₂ Spaced (trim x) (trim y) := by
  have hStart := dropWhile_spaced (p := isBlank) rfl h
  exact List.rel_reverse (dropWhile_spaced (p := isBlank) rfl (List.rel_reverse hStart))

theorem stars_spaced (h : List.Forall₂ Spaced x y) :
    (Parameter.stars y).1 = (Parameter.stars x).1 ∧
      List.Forall₂ Spaced (Parameter.stars x).2 (Parameter.stars y).2 := by
  cases h with
  | nil => exact ⟨rfl, .nil⟩
  | @cons c d x y hChar hRest =>
    -- a star stands for a star only, so the first two characters are of one kind
    have hStar := hChar.eq_iff (e := '*') (by decide) (by decide)
    by_cases hc : c = '*'
    · obtain rfl := hc
      obtain rfl := hStar.2 rfl
      cases hRest with
      | nil => exact ⟨rfl, .nil⟩
      | @cons c' d' x y hChar' hRest =>
        have hStar' := hChar'.eq_iff (e := '*') (by decide) (by decide)
        by_cases hc' : c' = '*'
        · obtain rfl := hc'
          obtain rfl := hStar'.2 rfl
          exact ⟨rfl, hRest⟩
        · rw [Parameter.stars_star_of_ne hc', Parameter.stars_star_of_ne (mt hStar'.1 hc')]
          exact ⟨rfl, .cons hChar' hRest⟩
    · rw [Parameter.stars_of_ne hc, Parameter.stars_of_ne (mt hStar.1 hc)]
      exact ⟨rfl, .cons hChar hRest⟩

theorem takeWhile_spaced {p : Char → Bool} (hSpace : p ' ' = false) (hBreak : p '\n' = false)
    (h : List.Forall₂ Spaced x y) : y.takeWhile p = x.takeWhile p := by
  induction h with
  | nil => rfl
  | @cons c d x y hChar hRest ih =>
    rcases hChar with rfl | ⟨rfl, rfl⟩
    · rw [List.takeWhile_cons, List.takeWhile_cons, ih]
    · simp [hSpace, hBreak]

/-- Neither a line break nor a space belongs to a name. -/
theorem leadingName_spaced (h : List.Forall₂ Spaced x y) :
    (leadingName y).1 = (leadingName x).1 ∧
      List.Forall₂ Spaced (leadingName x).2 (leadingName y).2 := by
  cases h with
  | nil => exact ⟨rfl, .nil⟩
  | @cons c d x y hChar hRest =>
    have hStart := hChar.congr (p := startsName) (by decide)
    rw [leadingName, leadingName, hStart]
    cases hc : startsName c with
    | false => exact ⟨rfl, .cons hChar hRest⟩
    | true =>
      -- what starts a name is no line break
      have hd : d = c := by
        rcases hChar with rfl | ⟨rfl, rfl⟩
        · rfl
        · cases hc
      rw [if_pos rfl, if_pos rfl, hd]
      refine ⟨?_, dropWhile_spaced (p := continuesName) (by decide) hRest⟩
      rw [takeWhile_spaced (p := continuesName) (by decide) (by decide) hRest]

end Spaced

/-- The second scan sees no comment where the first one saw none. -/
theorem region_behindName {kept : Text} (h : ∀ m ∈ scan kept, m.region ≠ .comment) :
    ∀ m ∈ scan (Parameter.behindName (trim kept)), m.region ≠ .comment := by
  intro m hm
  obtain ⟨front, middle, back, hScan⟩ := Parameter.exists_scan_behindName kept
  have hMem : m.shift middle ∈ scan kept := by
    rw [hScan]
    exact List.mem_append_right _ (List.mem_append_left _ (List.mem_map_of_mem hm))
  have hRegion := h _ hMem
  exact hRegion

theorem marksDefault_spaced {marks marks' : List Scanned} (h : List.Forall₂ SpacedMark marks marks')
    {before before' : Option Char}
    (hBefore : before'.any Parameter.joinsEquals = before.any Parameter.joinsEquals) :
    Parameter.marksDefault before' marks' = Parameter.marksDefault before marks := by
  induction h generalizing before before' with
  | nil => rfl
  | @cons m k marks marks' hMark hRest ih =>
    have hEquals := hMark.char.eq_iff (e := '=') (by decide) (by decide)
    have hTop : k.isTop '=' = m.isTop '=' := by
      simp [Scanned.isTop, Scanned.isCode, hMark.region, hMark.depth, hEquals]
    -- the neighbours are a `=` on both sides or on neither
    have hAfter : marks'.head?.map Scanned.char ≠ some '=' ↔
        marks.head?.map Scanned.char ≠ some '=' := by
      cases hRest with
      | nil => rfl
      | cons hNext _ => simp [hNext.char.eq_iff (e := '=') (by decide) (by decide)]
    have hRestDefault : Parameter.marksDefault (some k.char) marks' =
        Parameter.marksDefault (some m.char) marks :=
      ih (hMark.char.congr (p := Parameter.joinsEquals) rfl)
    rw [Parameter.marksDefault, Parameter.marksDefault, hTop, hBefore, hRestDefault]
    simp only [hAfter]

theorem head?_spaced {x y : Text} (h : List.Forall₂ Spaced x y) {c : Char} (hBreak : c ≠ '\n')
    (hSpace : c ≠ ' ') : y.head? = some c ↔ x.head? = some c := by
  cases h with
  | nil => rfl
  | cons hChar _ => simp [hChar.eq_iff hBreak hSpace]

/-- **Pieces that differ in spaces for line breaks declare the same.** -/
theorem ofSegment?_spaced (receivers : List Text) {s t : Segment}
    (h : SpacedSegment s t) (hNo : ∀ m ∈ scan s.kept, m.region ≠ .comment) :
    Parameter.ofSegment? receivers t = Parameter.ofSegment? receivers s := by
  obtain ⟨hRole, hRest⟩ := stars_spaced (trim_spaced h)
  have hStart := dropWhile_spaced (p := isBlank) rfl hRest
  obtain ⟨hName, hBehind⟩ := leadingName_spaced hStart
  have hColon := head?_spaced (dropWhile_spaced (p := isBlank) rfl hBehind) (c := ':')
    (by decide) (by decide)
  have hDefault : Parameter.marksDefault none (scan (Parameter.behindName t.code)) =
      Parameter.marksDefault none (scan (Parameter.behindName s.code)) :=
    marksDefault_spaced (scan_spaced hBehind (region_behindName hNo)) rfl
  have hNameOf : Parameter.nameOf t.code = Parameter.nameOf s.code := hName
  have hRoleOf : (Parameter.stars t.code).1 = (Parameter.stars s.code).1 := hRole
  have hAnnotated : (trimStart (Parameter.behindName t.code)).head? = some ':' ↔
      (trimStart (Parameter.behindName s.code)).head? = some ':' := hColon
  rw [Parameter.ofSegment?_eq, Parameter.ofSegment?_eq, hNameOf, hRoleOf, hDefault]
  simp only [hAnnotated]

/-! ## The flat list -/

theorem pieces_scan_flat (text : Text) :
    pieces (scan (flat text)) = pieces (flatMarks ' ' (scan text)) := by
  rw [← pieces_unplaced, scan_flat, pieces_unplaced]

theorem placed_spaced {ps qs : List (Text × Text)}
    (h : List.Forall₂ SpacedPiece ps qs) (start start' : Nat) :
    List.Forall₂ SpacedSegment (placed start ps) (placed start' qs) := by
  induction h generalizing start start' with
  | nil => exact .nil
  | @cons p q ps qs hCode hRest ih => exact .cons hCode (ih _ _)

/-- The flat list has as many segments, with the same code but for spaces. -/
theorem segments_flat {text : Text} {list : List Segment} (h : segments text = .ok list) :
    ∃ list', segments (flat text) = .ok list' ∧ List.Forall₂ SpacedSegment list list' := by
  have hFault := fault?_of_segments h
  obtain ⟨hFirst, hMore⟩ := pieces_flatMarks (scan text)
  have hPlaced := placed_spaced (.cons hFirst hMore) 0 0
  rw [← pieces_scan_flat] at hPlaced
  obtain rfl := Except.ok.inj ((segments_of_fault?_eq_none hFault).symm.trans h)
  exact ⟨_, segments_of_fault?_eq_none ((fault?_flat_eq_none_iff text).2 hFault), hPlaced⟩

/-- The code of a segment has no comment left for its second scan. -/
theorem region_kept {text : Text} {list : List Segment} (h : segments text = .ok list)
    {s : Segment} (hs : s ∈ list) : ∀ m ∈ scan s.kept, m.region ≠ .comment := by
  obtain ⟨raws, -, rfl⟩ := segments_eq_ok_iff.1 h
  obtain ⟨raw, -, -, hKept⟩ := exists_of_mem_placed hs
  rw [hKept]
  exact region_scan_uncommented raw

theorem filterMap_ofSegment?_spaced (receivers : List Text) {list list' : List Segment}
    (h : List.Forall₂ SpacedSegment list list')
    (hNo : ∀ s ∈ list, ∀ m ∈ scan s.kept, m.region ≠ .comment) :
    list'.filterMap (Parameter.ofSegment? receivers) =
      list.filterMap (Parameter.ofSegment? receivers) := by
  induction h with
  | nil => rfl
  | @cons s t list list' hCode hRest ih =>
    have hFirst := ofSegment?_spaced receivers hCode (hNo s (List.mem_cons_self ..))
    rw [List.filterMap_cons, List.filterMap_cons, hFirst,
      ih fun u hu => hNo u (List.mem_cons_of_mem _ hu)]

theorem exists_segments_flat_iff (text : Text) :
    (∃ list, segments (flat text) = .ok list) ↔ ∃ list, segments text = .ok list := by
  constructor
  · rintro ⟨list', h⟩
    have hFault := (fault?_flat_eq_none_iff text).1 (fault?_of_segments h)
    exact ⟨_, segments_of_fault?_eq_none hFault⟩
  · rintro ⟨list, h⟩
    obtain ⟨list', h', -⟩ := segments_flat h
    exact ⟨list', h'⟩

theorem parameters_flat {receivers : List Text} {text : Text} {list : List Parameter}
    (h : parameters receivers text = .ok list) : parameters receivers (flat text) = .ok list := by
  cases hSegments : segments text with
  | error fault => simp [parameters, hSegments, Except.map] at h
  | ok segs =>
    obtain ⟨segs', hFlat, hSpaced⟩ := segments_flat hSegments
    have hSame := filterMap_ofSegment?_spaced receivers hSpaced
      fun s hs => region_kept hSegments hs
    rw [parameters, hSegments] at h
    rw [parameters, hFlat, ← h]
    exact congrArg Except.ok hSame

/-- **Comments and line breaks carry no meaning.** The flat text can be cut exactly when the text
can, into as many segments, and declares the same parameters; and it has no comment, so that it is
its own flat text. -/
theorem flat_keeps_parameters (text : Text) :
    ((∃ list, segments (flat text) = .ok list) ↔ ∃ list, segments text = .ok list) ∧
    (∀ list, segments text = .ok list →
      ∃ list', segments (flat text) = .ok list' ∧ list'.length = list.length) ∧
    (∀ receivers list, parameters receivers text = .ok list →
      parameters receivers (flat text) = .ok list) ∧
    (∀ m ∈ scan (flat text), m.region ≠ .comment) ∧
    flat (flat text) = flat text := by
  refine ⟨exists_segments_flat_iff text, fun list h => ?_, fun receivers list h => ?_,
    region_scan_flat text, flat_flat text⟩
  · obtain ⟨list', h', hSpaced⟩ := segments_flat h
    exact ⟨list', h', hSpaced.length_eq.symm⟩
  · exact parameters_flat h

/-- A comment between a name and its `=`, and a string that goes over two lines. -/
theorem flat_keeps_parameters_two_lines :
    flat "a # ,\n='\n#', b".toList = "a  ='\n#', b".toList ∧
    parameters [] "a # ,\n='\n#', b".toList =
      .ok [⟨['a'], .ordinary, false, true⟩, ⟨['b'], .ordinary, false, false⟩] ∧
    parameters [] "a  ='\n#', b".toList =
      .ok [⟨['a'], .ordinary, false, true⟩, ⟨['b'], .ordinary, false, false⟩] := by
  have hFlat : flat "a # ,\n='\n#', b".toList = "a  ='\n#', b".toList := by rfl
  have hParameters : parameters [] "a # ,\n='\n#', b".toList =
      .ok [⟨['a'], .ordinary, false, true⟩, ⟨['b'], .ordinary, false, false⟩] := by rfl
  obtain ⟨-, -, hKept, -, -⟩ := flat_keeps_parameters "a # ,\n='\n#', b".toList
  exact ⟨hFlat, hParameters, hFlat ▸ hKept [] _ hParameters⟩

end FieldFill
