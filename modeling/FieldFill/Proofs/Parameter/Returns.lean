import FieldFill.Parameter.Assignment
import FieldFill.Proofs.Lexical.Returns
import FieldFill.Proofs.Parameter.Classify
import FieldFill.Proofs.Parameter.Cut

/-!
# Parameter lists with Windows line endings

A parameter list that goes over several lines declares the same with Windows line endings. It is cut at
the same commas. A carriage return at the end of a comment is not in the code of its segment and any
other one is, so the code is related by `Returns`, with some of the carriage returns. What is read off
the code is found by characters that are no line ends.

Main results:

* `pieces_returned` — piece by piece, the code differs in carriage returns only.
* `ofSegment?_returned` — such pieces declare the same parameter.
* `assignments_returned` — the assignments for the list are the same.
-/

namespace FieldFill

/-! ## Cutting -/

/-- Two pieces whose code differs in carriage returns. -/
def ReturnedPiece (p q : Text × Text) : Prop :=
  Returns false p.2 q.2

/-- Two segments whose code differs in carriage returns. -/
def ReturnedSegment (s t : Segment) : Prop :=
  Returns false s.kept t.kept

section

variable {all : Bool} {marks marks' : List Scanned}

theorem isTop_unplaced_eq {m m' : Scanned} (h : m'.unplaced = m.unplaced) (c : Char) :
    m'.isTop c = m.isTop c := by
  obtain ⟨hChar, hRegion, hDepth⟩ := Scanned.eq_of_unplaced h
  rw [Scanned.isTop, Scanned.isTop, Scanned.isCode, Scanned.isCode, hChar, hRegion, hDepth]

theorem isTop_of_ne {m : Scanned} {c : Char} (h : m.char ≠ c) : m.isTop c = false := by
  simp [Scanned.isTop, h]

/-- **Cutting the marks of the two texts gives as many pieces**, whose code differs in carriage returns
only. -/
theorem pieces_returned (h : ReturnedMarks all marks marks') :
    ReturnedPiece (pieces marks).1 (pieces marks').1 ∧
      List.Forall₂ ReturnedPiece (pieces marks).2 (pieces marks').2 := by
  induction h with
  | nil => exact ⟨.nil, .nil⟩
  | @keep m m' marks marks' hMark hc h ih =>
    obtain ⟨hChar, hRegion, -⟩ := Scanned.eq_of_unplaced hMark
    rw [pieces, pieces, isTop_unplaced_eq hMark, hChar, hRegion]
    by_cases hTop : m.isTop ',' = true
    · simp only [hTop, if_true]
      exact ⟨.nil, .cons ih.1 ih.2⟩
    · simp only [hTop, Bool.false_eq_true, if_false]
      refine ⟨?_, ih.2⟩
      unfold ReturnedPiece
      dsimp only
      split
      · exact ih.1
      · exact .keep m.char (fun hAll => absurd hAll Bool.false_ne_true) ih.1
  | @put m ret newline marks marks' hBreak h ih =>
    obtain ⟨hChar, hRegion, -⟩ := Scanned.eq_of_unplaced hBreak.unplaced
    -- no line end is a comma
    have hTop := isTop_of_ne (m := m) (c := ',') (by rw [hBreak.char]; decide)
    have hTopNewline := isTop_of_ne (m := newline) (c := ',') (by rw [hChar, hBreak.char]; decide)
    have hTopReturn := isTop_of_ne (m := ret) (c := ',') (by rw [hBreak.return_char]; decide)
    rw [pieces, pieces, pieces, hTop, hTopReturn, hTopNewline, hChar, hRegion, hBreak.char,
      hBreak.return_char]
    simp only [Bool.false_eq_true, if_false, hBreak.region]
    refine ⟨?_, ih.2⟩
    unfold ReturnedPiece
    dsimp only
    -- the carriage return is lost with a comment
    split
    · exact .keep '\n' (fun hAll => absurd hAll Bool.false_ne_true) ih.1
    · exact .put ih.1

theorem placed_returned {ps qs : List (Text × Text)} (h : List.Forall₂ ReturnedPiece ps qs)
    (start start' : Nat) :
    List.Forall₂ ReturnedSegment (placed start ps) (placed start' qs) := by
  induction h generalizing start start' with
  | nil => exact .nil
  | @cons p q ps qs hCode hRest ih => exact .cons hCode (ih _ _)

/-! ## Classifying -/

/-- A default is marked in both texts or in neither. -/
theorem marksDefault_returned (h : ReturnedMarks all marks marks') (before : Option Char) :
    Parameter.marksDefault before marks' = Parameter.marksDefault before marks := by
  induction h generalizing before with
  | nil => rfl
  | @keep m m' marks marks' hMark hc h ih =>
    have hNext : marks'.head?.map Scanned.char ≠ some '=' ↔
        marks.head?.map Scanned.char ≠ some '=' := by
      rw [← List.head?_map, ← List.head?_map, ne_eq, ne_eq,
        h.map_char.head?_iff (by decide) (by decide)]
    rw [Parameter.marksDefault, Parameter.marksDefault, isTop_unplaced_eq hMark,
      (Scanned.eq_of_unplaced hMark).1, ih]
    simp only [hNext]
  | @put m ret newline marks marks' hBreak h ih =>
    obtain ⟨hChar, -⟩ := Scanned.eq_of_unplaced hBreak.unplaced
    have hTop := isTop_of_ne (m := m) (c := '=') (by rw [hBreak.char]; decide)
    have hTopNewline := isTop_of_ne (m := newline) (c := '=') (by rw [hChar, hBreak.char]; decide)
    have hTopReturn := isTop_of_ne (m := ret) (c := '=') (by rw [hBreak.return_char]; decide)
    rw [Parameter.marksDefault, Parameter.marksDefault, Parameter.marksDefault, hTop, hTopReturn,
      hTopNewline, hChar, ih]
    rfl

end

section

variable {a b : Text}

theorem stars_returned (h : Returns false a b) :
    (Parameter.stars b).1 = (Parameter.stars a).1 ∧
      Returns false (Parameter.stars a).2 (Parameter.stars b).2 := by
  cases h with
  | nil => exact ⟨rfl, .nil⟩
  | @keep a b c hc h =>
    by_cases hStar : c = '*'
    · subst hStar
      cases h with
      | nil => exact ⟨rfl, .nil⟩
      | @keep a b d hd h =>
        by_cases hStar' : d = '*'
        · subst hStar'
          exact ⟨rfl, h⟩
        · rw [Parameter.stars_star_of_ne hStar', Parameter.stars_star_of_ne hStar']
          exact ⟨rfl, .keep d hd h⟩
      | put h =>
        rw [Parameter.stars_star_of_ne (by decide), Parameter.stars_star_of_ne (by decide)]
        exact ⟨rfl, .put h⟩
    · rw [Parameter.stars_of_ne hStar, Parameter.stars_of_ne hStar]
      exact ⟨rfl, .keep c hc h⟩
  | put h =>
    rw [Parameter.stars_of_ne (by decide), Parameter.stars_of_ne (by decide)]
    exact ⟨rfl, .put h⟩

/-- No line end belongs to a name. -/
theorem leadingName_returned (h : Returns false a b) :
    (leadingName b).1 = (leadingName a).1 ∧ Returns false (leadingName a).2 (leadingName b).2 := by
  cases h with
  | nil => exact ⟨rfl, .nil⟩
  | @keep a b c hc h =>
    rw [leadingName, leadingName]
    split
    · refine ⟨?_, h.dropWhile (p := continuesName) (by decide)⟩
      rw [h.takeWhile_eq (p := continuesName) (by decide) (by decide)]
    · exact ⟨rfl, .keep c hc h⟩
  | put h =>
    rw [leadingName, leadingName, if_neg (by decide), if_neg (by decide)]
    exact ⟨rfl, .put h⟩

/-- **Pieces that differ in carriage returns declare the same.** -/
theorem ofSegment?_returned (receivers : List Text) {s t : Segment} (h : ReturnedSegment s t) :
    Parameter.ofSegment? receivers t = Parameter.ofSegment? receivers s := by
  obtain ⟨hRole, hRest⟩ := stars_returned (Returns.trim h)
  obtain ⟨hName, hBehind⟩ := leadingName_returned (hRest.dropWhile (p := isBlank) rfl)
  have hColon := (hBehind.dropWhile (p := isBlank) rfl).head?_iff (c := ':') (by decide) (by decide)
  have hDefault := marksDefault_returned (scan_returned hBehind) none
  have hNameOf : Parameter.nameOf t.code = Parameter.nameOf s.code := hName
  have hRoleOf : (Parameter.stars t.code).1 = (Parameter.stars s.code).1 := hRole
  have hAnnotated : (trimStart (Parameter.behindName t.code)).head? = some ':' ↔
      (trimStart (Parameter.behindName s.code)).head? = some ':' := hColon
  have hDefaulted : Parameter.marksDefault none (scan (Parameter.behindName t.code)) =
      Parameter.marksDefault none (scan (Parameter.behindName s.code)) := hDefault
  rw [Parameter.ofSegment?_eq, Parameter.ofSegment?_eq, hNameOf, hRoleOf, hDefaulted]
  simp only [hAnnotated]

theorem filterMap_ofSegment?_returned (receivers : List Text) {list list' : List Segment}
    (h : List.Forall₂ ReturnedSegment list list') :
    list'.filterMap (Parameter.ofSegment? receivers) =
      list.filterMap (Parameter.ofSegment? receivers) := by
  induction h with
  | nil => rfl
  | cons hCode hRest ih =>
    rw [List.filterMap_cons, List.filterMap_cons, ofSegment?_returned _ hCode, ih]

/-! ## The whole list -/

/-- A list without faults declares the same parameters with Windows line endings. -/
theorem parameters_returned {all : Bool} (h : Returns all a b) (hFault : fault? a = none)
    (receivers : List Text) : parameters receivers b = parameters receivers a := by
  have hFault' : fault? b = none := by
    rw [← Option.map_eq_none_iff (f := SignatureFault.unplaced), fault?_returned h, hFault,
      Option.map_none]
  obtain ⟨hFirst, hMore⟩ := pieces_returned (scan_returned h)
  rw [parameters, parameters, segments_of_fault?_eq_none hFault, segments_of_fault?_eq_none hFault']
  exact congrArg Except.ok
    (filterMap_ofSegment?_returned receivers (placed_returned (.cons hFirst hMore) 0 0))

theorem assignments_returned {all : Bool} (h : Returns all a b) (hFault : fault? a = none)
    (settings : Settings) : assignments settings b = assignments settings a := by
  rw [assignments, assignments, parameters_returned h hFault]

end

end FieldFill
