import FieldFill.Parameter.Basic
import FieldFill.Proofs.Lexical.Closed
import FieldFill.Proofs.Text.Trim

/-!
# What a segment declares

A segment is read twice: the list was scanned to cut it, and what stands behind its name is scanned
again for the `=` of a default. What is taken away in between (blanks, stars and the name) is plain,
so the second scan sees what the first one saw.

* `ofSegment?_eq` — the parameter of a segment by its name and what stands behind it.
* `exists_leading`, `exists_behindName` — what is taken away in front of the name and behind it.
* `marksDefault_iff` — where the `=` of a default stands.
* `marksDefault_append`, `marksDefault_plain_append` — what can be left out of a scan.
-/

namespace FieldFill

/-! ## Plain characters -/

/-- The characters that open or close something in code. -/
def lexicalChars : Text :=
  ['#', '\'', '\"', '(', '[', '\x7b', ')', ']', '\x7d']

/-- A class of characters without any of these holds plain characters only. -/
theorem isPlain_of_class {p : Char → Bool} (hNone : lexicalChars.any p = false) {c : Char}
    (h : p c = true) : isPlain c = true := by
  by_contra hNot
  have hMem : c ∈ lexicalChars := by
    simp only [isPlain, isQuote, isOpener, isCloser] at hNot
    simp only [lexicalChars, List.mem_cons, List.not_mem_nil, or_false]
    by_contra hOther
    simp_all
  exact List.any_eq_false.1 hNone c hMem h

theorem isPlain_of_isBlank {c : Char} (h : isBlank c = true) : isPlain c = true :=
  isPlain_of_class (by decide) h

theorem isPlain_of_continuesName {c : Char} (h : continuesName c = true) : isPlain c = true :=
  isPlain_of_class (by decide) h

/-- A blank is no quote, so that none meets another one across it. -/
theorem apart_blank {back : Text} (hBack : Blank back) (x : Text) : Apart x back := by
  cases back with
  | nil => exact Apart.nil_right _
  | cons c back =>
    have hc := isPlain_of_isBlank (hBack c (List.mem_cons_self ..))
    exact Apart.cons_right _ _ (not_isQuote_of_isPlain hc)

/-! ## The name and what stands behind it -/

namespace Parameter

/-- The name in the code of a segment, empty when there is none. -/
def nameOf (code : Text) : Text :=
  (leadingName (trimStart (stars code).2)).1

/-- What stands behind the name in the code of a segment. -/
def behindName (code : Text) : Text :=
  (leadingName (trimStart (stars code).2)).2

theorem ofSegment?_eq (receivers : List Text) (segment : Segment) :
    ofSegment? receivers segment =
      if (nameOf segment.code).isEmpty then none
      else
        some {
          name := nameOf segment.code
          role := (stars segment.code).1.getD
            (if receivers.contains (nameOf segment.code) then .receiver else .ordinary)
          annotated := (trimStart (behindName segment.code)).head? = some ':'
          defaulted := marksDefault none (scan (behindName segment.code)) } := rfl

theorem stars_of_ne {c : Char} (hc : c ≠ '*') (rest : Text) :
    stars (c :: rest) = (none, c :: rest) := by
  unfold stars
  split
  · rename_i h
    exact absurd (List.cons.inj h).1 hc
  · rename_i h
    exact absurd (List.cons.inj h).1 hc
  · rfl

theorem stars_star_of_ne {c : Char} (hc : c ≠ '*') (rest : Text) :
    stars ('*' :: c :: rest) = (some .variadicPositional, c :: rest) := by
  unfold stars
  split
  · rename_i h
    exact absurd (List.cons.inj (List.cons.inj h).2).1 hc
  · rename_i h
    rw [(List.cons.inj h).2]
  · rename_i h
    exact absurd rfl (h _)

theorem exists_stars (code : Text) :
    ∃ lead, (∀ c ∈ lead, c = '*') ∧ code = lead ++ (stars code).2 := by
  unfold stars
  split
  · exact ⟨['*', '*'], by simp, rfl⟩
  · exact ⟨['*'], by simp, rfl⟩
  · exact ⟨[], by simp, rfl⟩

theorem continuesName_of_mem_leadingName {text : Text} {c : Char}
    (h : c ∈ (leadingName text).1) : continuesName c = true := by
  cases text with
  | nil => cases h
  | cons d rest =>
    rw [leadingName] at h
    split at h
    · rename_i hStart
      rcases List.mem_cons.1 h with rfl | hMem
      · exact continuesName_of_startsName hStart
      · exact List.mem_takeWhile_imp hMem
    · cases h

/-- What is taken away from a segment in front of its name are blanks and stars, and what is taken
away at its end is blank. -/
theorem exists_leading (kept : Text) :
    ∃ lead back, (∀ c ∈ lead, isBlank c = true ∨ c = '*') ∧ Blank back ∧
      kept = lead ++ (nameOf (trim kept) ++ (behindName (trim kept) ++ back)) := by
  obtain ⟨lead, back, hLead, hBack, hKept⟩ := exists_trim kept
  obtain ⟨starred, hStars, hCode⟩ := exists_stars (trim kept)
  obtain ⟨gap, hGap, hRest⟩ := exists_trimStart (stars (trim kept)).2
  have hName := leadingName_append (trimStart (stars (trim kept)).2)
  refine ⟨lead ++ (starred ++ gap), back, ?_, hBack, ?_⟩
  · intro c hc
    simp only [List.mem_append] at hc
    rcases hc with hc | hc | hc
    · exact .inl (hLead c hc)
    · exact .inr (hStars c hc)
    · exact .inl (hGap c hc)
  · -- put together again, they are the text
    have hAll : trim kept = starred ++ (gap ++ (nameOf (trim kept) ++ behindName (trim kept))) := by
      rw [nameOf, behindName, hName, ← hRest, ← hCode]
    calc kept = lead ++ (trim kept ++ back) := hKept
      _ = lead ++ (starred ++ (gap ++ (nameOf (trim kept) ++ behindName (trim kept))) ++ back) := by
        rw [← hAll]
      _ = lead ++ (starred ++ gap) ++ (nameOf (trim kept) ++ (behindName (trim kept) ++ back)) := by
        simp only [List.append_assoc]

theorem isPlain_of_leading {c : Char} (h : isBlank c = true ∨ c = '*') : isPlain c = true := by
  rcases h with hBlank | rfl
  · exact isPlain_of_isBlank hBlank
  · rfl

theorem isPlain_of_mem_nameOf {code : Text} {c : Char} (h : c ∈ nameOf code) :
    isPlain c = true :=
  isPlain_of_continuesName (continuesName_of_mem_leadingName h)

/-- What is taken away from a segment in front of its second scan is plain, and what is taken away
behind it is blank. -/
theorem exists_behindName (kept : Text) :
    ∃ front back, (∀ c ∈ front, isPlain c = true) ∧ Blank back ∧
      kept = front ++ (behindName (trim kept) ++ back) := by
  obtain ⟨lead, back, hLead, hBack, hKept⟩ := exists_leading kept
  rw [← List.append_assoc] at hKept
  refine ⟨lead ++ nameOf (trim kept), back, fun c hc => ?_, hBack, hKept⟩
  rcases List.mem_append.1 hc with hc | hc
  · exact isPlain_of_leading (hLead c hc)
  · exact isPlain_of_mem_nameOf hc

/-- The second scan is a part of the scan of the whole segment. -/
theorem exists_scan_behindName (kept : Text) :
    ∃ front middle back, scan kept =
      front ++ ((scan (behindName (trim kept))).map (Scanned.shift middle) ++ back) := by
  obtain ⟨front, back, hFront, hBack, hKept⟩ := exists_behindName kept
  have hSeam : Apart (behindName (trim kept)) back := apart_blank hBack _
  have hScan := (closed_of_plain hFront).scan_append
    (apart_of_plain hFront (behindName (trim kept) ++ back))
  rw [← hKept, scan_append hSeam, List.map_append] at hScan
  exact ⟨_, _, _, hScan⟩

/-! ## The mark of a default -/

/-- A default is marked by an `=` in code outside of all brackets that neither of its neighbours
makes part of a comparison. -/
theorem marksDefault_iff {before : Option Char} {marks : List Scanned} :
    marksDefault before marks = true ↔
      ∃ front m back, marks = front ++ m :: back ∧ m.isTop '=' = true ∧
        ((front.getLast?.map Scanned.char).or before).any joinsEquals = false ∧
        back.head?.map Scanned.char ≠ some '=' := by
  induction marks generalizing before with
  | nil => simp [marksDefault]
  | cons m marks ih =>
    rw [marksDefault, Bool.or_eq_true, ih]
    constructor
    · -- the first character marks it, or one behind it
      rintro (hHere | ⟨front, k, back, rfl, hTop, hBefore, hAfter⟩)
      · simp only [Bool.and_eq_true, Bool.not_eq_true', decide_eq_true_eq] at hHere
        exact ⟨[], m, marks, rfl, hHere.1.1, hHere.1.2, hHere.2⟩
      · refine ⟨m :: front, k, back, rfl, hTop, ?_, hAfter⟩
        -- in front of the mark stands the last of `front`, or `m` when there is none
        rw [List.getLast?_cons]
        cases hLast : front.getLast? <;> simpa [hLast] using hBefore
    · rintro ⟨front, k, back, hEq, hTop, hBefore, hAfter⟩
      cases front with
      | nil =>
        obtain ⟨rfl, rfl⟩ := List.cons.inj hEq
        refine .inl ?_
        simp only [Bool.and_eq_true, Bool.not_eq_true', decide_eq_true_eq]
        exact ⟨⟨hTop, hBefore⟩, hAfter⟩
      | cons n front =>
        obtain ⟨rfl, rfl⟩ := List.cons.inj hEq
        refine .inr ⟨front, k, back, rfl, hTop, ?_, hAfter⟩
        rw [List.getLast?_cons] at hBefore
        cases hLast : front.getLast? <;> simpa [hLast] using hBefore

theorem marksDefault_eq_false {before : Option Char} {marks : List Scanned}
    (h : ∀ m ∈ marks, m.isTop '=' = false) : marksDefault before marks = false := by
  rw [Bool.eq_false_iff, ne_eq, marksDefault_iff]
  rintro ⟨front, m, back, rfl, hTop, -⟩
  rw [h m (List.mem_append_right _ (List.mem_cons_self ..))] at hTop
  cases hTop

end Parameter

/-! ## What marks no default -/

/-- Characters other than `=` at the end of a scan mark no default. -/
theorem marksDefault_append {before : Option Char} {marks more : List Scanned}
    (h : ∀ m ∈ more, m.char ≠ '=') :
    Parameter.marksDefault before (marks ++ more) = Parameter.marksDefault before marks := by
  induction marks generalizing before with
  | nil =>
    refine Parameter.marksDefault_eq_false fun m hm => ?_
    have hChar := h m hm
    simp [Scanned.isTop, hChar]
  | cons m marks ih =>
    rw [List.cons_append, Parameter.marksDefault, Parameter.marksDefault, ih]
    cases marks with
    | cons n marks => rfl
    | nil =>
      -- behind the last one stands no `=` in either case
      cases more with
      | nil => rfl
      | cons n more =>
        have hChar := h n (List.mem_cons_self ..)
        simp [hChar]

theorem marksDefault_blank {back : Text} (hBack : Blank back) (before : Option Char)
    (text : Text) :
    Parameter.marksDefault before (scan (text ++ back)) =
      Parameter.marksDefault before (scan text) := by
  rw [scan_append (apart_blank hBack text), marksDefault_append]
  intro m hm
  -- a blank is no `=`
  have hMem : m.char ∈ back := by
    have h := List.mem_map_of_mem (f := Scanned.char) hm
    rwa [map_char_scanFrom] at h
  rintro hChar
  rw [hChar] at hMem
  exact absurd (hBack _ hMem) (by decide)

theorem marksDefault_trimEnd (before : Option Char) (text : Text) :
    Parameter.marksDefault before (scan (trimEnd text)) =
      Parameter.marksDefault before (scan text) := by
  obtain ⟨back, hBack, hText⟩ := exists_trimEnd text
  have hTrim := marksDefault_blank hBack before (trimEnd text)
  rw [← hText] at hTrim
  exact hTrim.symm

theorem marksDefault_some {c : Char} (hc : Parameter.joinsEquals c = false)
    (marks : List Scanned) :
    Parameter.marksDefault (some c) marks = Parameter.marksDefault none marks := by
  cases marks with
  | nil => rfl
  | cons m marks => simp [Parameter.marksDefault, hc]

theorem marksDefault_unplaced (before : Option Char) (marks : List Scanned) :
    Parameter.marksDefault before (marks.map Scanned.unplaced) =
      Parameter.marksDefault before marks := by
  induction marks generalizing before with
  | nil => rfl
  | cons m marks ih =>
    have hHead : (marks.map Scanned.unplaced).head?.map Scanned.char =
        marks.head?.map Scanned.char := by
      cases marks <;> rfl
    rw [List.map_cons, Parameter.marksDefault, ih, hHead]
    rfl

/-- Where the marks stand does not matter. -/
theorem marksDefault_congr {before : Option Char} {marks marks' : List Scanned}
    (h : marks'.map Scanned.unplaced = marks.map Scanned.unplaced) :
    Parameter.marksDefault before marks' = Parameter.marksDefault before marks := by
  rw [← marksDefault_unplaced, h, marksDefault_unplaced]

theorem marksDefault_shift (before : Option Char) (distance : Nat) (marks : List Scanned) :
    Parameter.marksDefault before (marks.map (Scanned.shift distance)) =
      Parameter.marksDefault before marks :=
  marksDefault_congr (map_unplaced_shift distance marks)

theorem marksDefault_plain {c : Char} (hPlain : isPlain c = true) (hne : c ≠ '=')
    (hc : Parameter.joinsEquals c = false) (text : Text) :
    Parameter.marksDefault none (scan (c :: text)) = Parameter.marksDefault none (scan text) := by
  rw [scan_plain_cons hPlain, Parameter.marksDefault, marksDefault_some hc, marksDefault_shift]
  simp [Scanned.isTop, hne]

/-- Plain text in front marks no default, and it changes no mark of what is behind it. -/
theorem marksDefault_plain_append {front : Text}
    (h : ∀ c ∈ front, isPlain c = true ∧ Parameter.joinsEquals c = false) (text : Text) :
    Parameter.marksDefault none (scan (front ++ text)) =
      Parameter.marksDefault none (scan text) := by
  induction front with
  | nil => rfl
  | cons c front ih =>
    obtain ⟨⟨hPlain, hJoins⟩, hRest⟩ := List.forall_mem_cons.1 h
    have hne : c ≠ '=' := by
      rintro rfl
      cases hJoins
    rw [List.cons_append, marksDefault_plain hPlain hne hJoins, ih hRest]

end FieldFill
